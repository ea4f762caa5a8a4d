import CstGrammar.Proofs.Token.Lexeme

namespace CstGrammar

namespace Location

/-- The position of a character that has `before` in front of it. -/
def behind (before : List Char) : Location :=
  ⟨1 + before.count '\n', 1 + (before.reverse.takeWhile (· != '\n')).length⟩

/-- The position of the last character of a text, or the one in front of the line that it opens. -/
def ending (source : List Char) : Location :=
  match source.getLast? with
  | none => ⟨1, 0⟩
  | some c =>
    if c = '\n' then ⟨(behind source.dropLast).line + 1, 0⟩ else behind source.dropLast

/-- Reading keeps count of the lines and columns. -/
theorem next_after_start (cs : List Char) : (start.after cs).next = behind cs := by
  obtain ⟨rev, rfl⟩ : ∃ rev, rev.reverse = cs := ⟨cs.reverse, List.reverse_reverse cs⟩
  induction rev with
  | nil => rfl
  | cons c rev ih =>
    rw [List.reverse_cons, after_append, after_cons, after_nil, step, ih, behind, behind]
    rw [List.reverse_append, List.reverse_reverse, List.reverse_singleton, List.singleton_append,
      List.takeWhile_cons, List.count_append]
    by_cases hc : c = '\n'
    · subst hc
      have hline : (start.after rev.reverse).line = 1 + rev.reverse.count '\n' :=
        congrArg line ih
      simp [next, hline]
      omega
    · simp [hc, next]
      omega

theorem after_start (cs : List Char) : start.after cs = ending cs := by
  cases h : cs.getLast? with
  | none =>
    rw [List.getLast?_eq_none_iff.mp h]
    rfl
  | some c =>
    obtain ⟨ds, rfl⟩ := List.getLast?_eq_some_iff.mp h
    have hline : (start.after ds).next.line = (behind ds).line :=
      congrArg line (next_after_start ds)
    rw [after_append, after_cons, after_nil, step, next_after_start, ending, h,
      List.dropLast_concat, ← hline]
    rfl

end Location

open Lexeme Literal

/-- What the text of a token makes of it, with `before` in front of it and `rest` behind it. -/
inductive Scans (before rest : List Char) : (text : List Char) → Token → Prop
  /-- A name goes as far as there are letters and underscores, to both sides. -/
  | name {text} : text ≠ [] → (∀ c ∈ text, isNameChar c = true) → Detached before.reverse →
      Detached rest → Scans before rest text ⟨.node, String.ofList text, .behind before⟩
  | punctuation {c kind} : (c, kind) ∈ punctuation →
      Scans before rest [c] ⟨kind, String.singleton c, .behind before⟩
  | literal {pieces} : (∀ piece ∈ pieces, piece.Readable ∧ piece.isValid = true) →
      Scans before rest ('\'' :: Body.text ⟨pieces, .closed⟩)
        ⟨.literal, String.ofList (pieces.map Piece.char), .behind before⟩
  | unterminated {pieces ending} : (∀ piece ∈ pieces, piece.Readable ∧ piece.isValid = true) →
      ending ≠ .closed → rest = [] →
      Scans before rest ('\'' :: Body.text ⟨pieces, ending⟩)
        ⟨.error, "unterminated token literal", .behind before⟩
  /-- The first invalid escape is where the error is, and the literal still goes on to its end. -/
  | invalidEscape {pieces c more ending} :
      (∀ piece ∈ pieces, piece.Readable ∧ piece.isValid = true) → c ≠ '\'' → c ≠ '\\' →
      (∀ piece ∈ more, piece.Readable) → (ending ≠ .closed → rest = []) →
      Scans before rest ('\'' :: Body.text ⟨pieces ++ .escape c :: more, ending⟩)
        ⟨.error, "invalid escape in token literal",
          .behind (before ++ '\'' :: pieces.flatMap Piece.text)⟩
  | unknown {c} : isNameChar c = false → c ≠ '\'' → (∀ kind, (c, kind) ∉ punctuation) →
      Trivia.isBlank c = false →
      Scans before rest [c]
        ⟨.error, "unknown token starting with " ++ Text.mention c, .behind before⟩

namespace Scans

variable {before rest text : List Char} {t : Token}

theorem text_ne_nil (h : Scans before rest text t) : text ≠ [] := by
  cases h with
  | name hne => exact hne
  | punctuation | literal | unterminated | invalidEscape | unknown => exact List.cons_ne_nil _ _

theorem detached_quoted {pieces : List Piece} {ending : Ending} (h : ending ≠ .closed → rest = []) :
    Detached ('\'' :: Body.text ⟨pieces, ending⟩).reverse ∨ Detached rest := by
  by_cases hc : ending = .closed
  · rw [hc, Body.text, Ending.text, ← List.cons_append, List.reverse_append]
    exact .inl (detached_cons (by decide) _)
  · rw [h hc]
    exact .inr detached_nil

/-- A name does not end where another one starts. -/
theorem detached (h : Scans before rest text t) : Detached text.reverse ∨ Detached rest := by
  cases h with
  | name _ _ _ hr => exact .inr hr
  | @punctuation c kind hp =>
    have hall : ∀ p ∈ CstGrammar.punctuation, isNameChar p.1 = false := by decide
    exact .inl (detached_cons (hall _ hp) [])
  | literal => exact detached_quoted fun h ↦ absurd rfl h
  | unterminated _ _ hr => exact detached_quoted fun _ ↦ hr
  | invalidEscape _ _ _ _ hr => exact detached_quoted hr
  | unknown hn => exact .inl (detached_cons hn [])

end Scans

variable {before gap us rest : List Char} {x : Lexeme}

theorem scans_ofLiteral {body : Body} (h : Body.read us = (body, rest))
    (hx : ofLiteral gap body = x) :
    Scans before rest x.text ⟨x.kind, x.value, .behind (before ++ x.lead)⟩ := by
  obtain ⟨hread, hend⟩ := Body.read_spec us
  rw [h] at hread hend
  unfold ofLiteral at hx
  dsimp only at hx
  split at hx
  · next hi =>
    obtain ⟨c, more, hp, hq, hs⟩ := Body.exists_of_hasInvalid hi
    have hvalid : ∀ piece ∈ body.validRun, piece.Readable ∧ piece.isValid = true := by
      intro piece hm
      refine ⟨hread piece ?_, Body.isValid_of_mem_validRun hm⟩
      rw [hp]
      exact List.mem_append_left _ hm
    have hmore : ∀ piece ∈ more, piece.Readable := by
      intro piece hm
      apply hread
      rw [hp]
      exact List.mem_append_right _ (List.mem_cons_of_mem _ hm)
    have hscans := @Scans.invalidEscape before rest _ _ _ _ hvalid hq hs hmore hend
    rw [← hp] at hscans
    rw [← hx]
    exact hscans
  · next hi =>
    have hvalid : ∀ piece ∈ body.pieces, piece.Readable ∧ piece.isValid = true := by
      intro piece hm
      refine ⟨hread piece hm, ?_⟩
      simp only [Body.hasInvalid, List.any_eq_true, not_exists, not_and] at hi
      simpa using hi piece hm
    have hlead : before ++ [] = before := List.append_nil before
    split at hx
    · next hc =>
      have hscans := @Scans.literal before rest _ hvalid
      rw [← hc] at hscans
      rw [← hx, hlead]
      exact hscans
    · next hc =>
      have hscans := @Scans.unterminated before rest _ _ hvalid hc (hend hc)
      rw [← hx, ofError, hlead]
      exact hscans

theorem scans_readAt {c : Char} (h : readAt gap c us = (x, rest)) (hb : Trivia.isBlank c = false)
    (hn : isNameChar c = true → Detached before.reverse) :
    Scans before rest x.text ⟨x.kind, x.value, .behind (before ++ x.lead)⟩ := by
  unfold readAt at h
  split at h
  · next hc =>
    obtain ⟨rfl, rfl⟩ := Prod.mk.inj h
    have hall : ∀ d ∈ c :: us.takeWhile isNameChar, isNameChar d = true :=
      List.forall_mem_cons.mpr ⟨hc, List.all_eq_true.mp List.all_takeWhile⟩
    rw [ofName, List.append_nil]
    exact .name (List.cons_ne_nil _ _) hall (hn hc) (detached_dropWhile us)
  · next hc =>
    have hc : isNameChar c = false := by simpa using hc
    split at h
    · obtain ⟨hx, hr⟩ := Prod.mk.inj h
      exact scans_ofLiteral (Prod.ext rfl hr) hx
    · next hq =>
      split at h
      · next kind hk =>
        obtain ⟨rfl, rfl⟩ := Prod.mk.inj h
        rw [ofPunctuation, List.append_nil]
        exact .punctuation (mem_punctuation_iff.mpr hk)
      · next hk =>
        obtain ⟨rfl, rfl⟩ := Prod.mk.inj h
        have hp : ∀ kind, (c, kind) ∉ punctuation := by
          intro kind hm
          rw [mem_punctuation_iff, hk] at hm
          cases hm
        rw [ofError, List.append_nil]
        exact .unknown hc hq hp hb

theorem readAt_quoted {body : Body} (h : ∀ piece ∈ body.pieces, piece.Readable)
    (hr : body.ending ≠ .closed → rest = []) (gap : List Char) :
    readAt gap '\'' (body.text ++ rest) = (ofLiteral gap body, rest) := by
  rw [readAt, if_neg (by decide), if_pos rfl, Body.read_text h rest hr]

theorem hasInvalid_eq_false {body : Body} (h : ∀ piece ∈ body.pieces, piece.isValid = true) :
    body.hasInvalid = false := by
  simpa [Body.hasInvalid] using h

/-- The text of a token is read as that token. -/
theorem Scans.readAt_eq {text : List Char} {t : Token} (h : Scans before rest text t)
    (gap : List Char) : ∃ c us x, text = c :: us ∧ readAt gap c (us ++ rest) = (x, rest) ∧
      t = ⟨x.kind, x.value, .behind (before ++ x.lead)⟩ := by
  cases h with
  | name hne hall _ hr =>
    obtain ⟨c, us, rfl⟩ := List.exists_cons_of_ne_nil hne
    obtain ⟨hc, hus⟩ := List.forall_mem_cons.mp hall
    obtain ⟨htake, hdrop⟩ := span_name hus hr
    refine ⟨c, us, ofName gap (c :: us), rfl, ?_, ?_⟩
    · rw [readAt, if_pos hc, htake, hdrop]
    · rw [ofName, List.append_nil]
  | @punctuation c kind hp =>
    have hall : ∀ p ∈ CstGrammar.punctuation, isNameChar p.1 = false ∧ p.1 ≠ '\'' := by decide
    obtain ⟨hn, hq⟩ := hall _ hp
    refine ⟨c, [], ofPunctuation gap kind c, rfl, ?_, ?_⟩
    · rw [readAt, if_neg (by simp [hn]), if_neg hq, mem_punctuation_iff.mp hp]
      rfl
    · rw [ofPunctuation, List.append_nil]
  | @literal pieces hp =>
    have hi := @hasInvalid_eq_false ⟨pieces, .closed⟩ fun piece hm ↦ (hp piece hm).2
    have hread : ∀ piece ∈ pieces, piece.Readable := fun piece hm ↦ (hp piece hm).1
    have hr := @readAt_quoted rest ⟨pieces, .closed⟩ hread (absurd rfl) gap
    refine ⟨'\'', _, ofLiteral gap ⟨pieces, .closed⟩, rfl, hr, ?_⟩
    simp [ofLiteral, hi, Body.value]
  | @unterminated pieces ending hp he hr =>
    have hi := @hasInvalid_eq_false ⟨pieces, ending⟩ fun piece hm ↦ (hp piece hm).2
    have hread : ∀ piece ∈ pieces, piece.Readable := fun piece hm ↦ (hp piece hm).1
    have hr := @readAt_quoted rest ⟨pieces, ending⟩ hread (fun _ ↦ hr) gap
    refine ⟨'\'', _, ofLiteral gap ⟨pieces, ending⟩, rfl, hr, ?_⟩
    rw [ofLiteral, hi, if_neg Bool.false_ne_true, if_neg he, ofError, List.append_nil]
    rfl
  | @invalidEscape pieces c more ending hp hq hs hm he =>
    have hvalid := Piece.forall_isValid_iff.mp fun piece hm ↦ (hp piece hm).2
    obtain ⟨hi, hv⟩ :=
      @Body.hasInvalid_of_eq_append ⟨pieces ++ .escape c :: more, ending⟩ _ _ _ rfl hvalid hq hs
    have hreadable : ∀ piece ∈ pieces ++ .escape c :: more, piece.Readable :=
      List.forall_mem_append.mpr
        ⟨fun piece hm ↦ (hp piece hm).1, List.forall_mem_cons.mpr ⟨trivial, hm⟩⟩
    have hr := @readAt_quoted rest ⟨pieces ++ .escape c :: more, ending⟩ hreadable he gap
    refine ⟨'\'', _, ofLiteral gap ⟨pieces ++ .escape c :: more, ending⟩, rfl, hr, ?_⟩
    rw [ofLiteral, hi, if_pos rfl, hv]
    rfl
  | @unknown c hn hq hp _ =>
    have hk : Token.Kind.ofPunctuation? c = none := by
      rw [Option.eq_none_iff_forall_ne_some]
      exact fun kind hk ↦ hp kind (mem_punctuation_iff.mpr hk)
    refine ⟨c, [], ofError gap [c] [] (.unknownCharacter c), rfl, ?_, ?_⟩
    · rw [readAt, if_neg (by simp [hn]), if_neg hq, hk]
      rfl
    · rw [ofError, List.append_nil]
      rfl

end CstGrammar
