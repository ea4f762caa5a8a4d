import CstGrammar.Json.Basic
import CstGrammar.Proofs.Rule.Words

namespace CstGrammar.Json

inductive Mark
  | openArray | closeArray | openObject | closeObject | comma | colon | null
  | string (value : String)
  deriving DecidableEq, Repr

def Mark.ofChar? : Char → Option Mark
  | '[' => some openArray
  | ']' => some closeArray
  | '\x7b' => some openObject
  | '\x7d' => some closeObject
  | ',' => some comma
  | ':' => some colon
  | _ => none

def isBlank (c : Char) : Bool := c = ' ' || c = '\t' || c = '\r' || c = '\n'

def unescape? : Char → Option Char
  | '"' => some '"'
  | '\\' => some '\\'
  | '/' => some '/'
  | 'b' => some '\x08'
  | 'f' => some '\x0c'
  | 'n' => some '\n'
  | 'r' => some '\r'
  | 't' => some '\t'
  | _ => none

def hexValue? (c : Char) : Option Nat :=
  if '0' ≤ c ∧ c ≤ '9' then some (c.toNat - '0'.toNat)
  else if 'a' ≤ c ∧ c ≤ 'f' then some (c.toNat - 'a'.toNat + 10)
  else if 'A' ≤ c ∧ c ≤ 'F' then some (c.toNat - 'A'.toNat + 10)
  else none

inductive Mode
  | outside
  /-- In the word for null, of which `left` is still to come. -/
  | word (left : List Char)
  | string (read : List Char)
  | escape (read : List Char)
  /-- In a numbered escape, behind digits that make up `code`, with `left` more to come. -/
  | digits (read : List Char) (code left : Nat)
  deriving DecidableEq, Repr

/-- The marks of a text, from a mode on. A numbered escape must stand for a whole character. -/
def marksFrom? : Mode → List Char → Option (List Mark)
  | .outside, [] => some []
  | _, [] => none
  | .outside, c :: cs =>
    if isBlank c then marksFrom? .outside cs
    else if c = '"' then marksFrom? (.string []) cs
    else if c = 'n' then marksFrom? (.word ['u', 'l', 'l']) cs
    else
      match Mark.ofChar? c with
      | some m => (m :: ·) <$> marksFrom? .outside cs
      | none => none
  | .word left, c :: cs =>
    if left = [c] then (.null :: ·) <$> marksFrom? .outside cs
    else if left.head? = some c then marksFrom? (.word left.tail) cs
    else none
  | .string read, c :: cs =>
    if c = '"' then (.string (String.ofList read) :: ·) <$> marksFrom? .outside cs
    else if c = '\\' then marksFrom? (.escape read) cs
    else if c.toNat < 32 then none
    else marksFrom? (.string (read ++ [c])) cs
  | .escape read, c :: cs =>
    if c = 'u' then marksFrom? (.digits read 0 4) cs
    else
      match unescape? c with
      | some d => marksFrom? (.string (read ++ [d])) cs
      | none => none
  | .digits read code left, c :: cs =>
    match hexValue? c with
    | none => none
    | some d =>
      if 1 < left then marksFrom? (.digits read (16 * code + d) (left - 1)) cs
      else if (16 * code + d).isValidChar then
        marksFrom? (.string (read ++ [Char.ofNat (16 * code + d)])) cs
      else none

inductive Frame
  | array (items : List Json)
  /-- Behind the colon of `key`. -/
  | object (members : List (String × Json)) (key : String)

/-- Where a reader of marks stands, with the arrays and objects around it from the inside out. -/
inductive State
  | value (outer : List Frame)
  | arrayStart (outer : List Frame)
  | objectStart (outer : List Frame)
  /-- The key of one more member is due. -/
  | key (members : List (String × Json)) (outer : List Frame)
  | colon (members : List (String × Json)) (key : String) (outer : List Frame)
  | done (value : Json) (outer : List Frame)

namespace State

def begin? (outer : List Frame) : Mark → Option State
  | .null => some (.done .null outer)
  | .string text => some (.done (.string text) outer)
  | .openArray => some (.arrayStart outer)
  | .openObject => some (.objectStart outer)
  | _ => none

def step? : State → Mark → Option State
  | .value outer, m => begin? outer m
  | .arrayStart outer, .closeArray => some (.done (.array []) outer)
  | .arrayStart outer, m => begin? (.array [] :: outer) m
  | .objectStart outer, .closeObject => some (.done (.object []) outer)
  | .objectStart outer, .string name => some (.colon [] name outer)
  | .key members outer, .string name => some (.colon members name outer)
  | .colon members name outer, .colon => some (.value (.object members name :: outer))
  | .done v (.array items :: outer), .comma => some (.value (.array (items ++ [v]) :: outer))
  | .done v (.array items :: outer), .closeArray => some (.done (.array (items ++ [v])) outer)
  | .done v (.object members name :: outer), .comma => some (.key (members ++ [(name, v)]) outer)
  | .done v (.object members name :: outer), .closeObject =>
    some (.done (.object (members ++ [(name, v)])) outer)
  | _, _ => none

end State

def ofMarks? (ms : List Mark) : Option Json :=
  match ms.foldlM State.step? (.value []) with
  | some (.done value []) => some value
  | _ => none

/-- The value of a text, with any blanks between its marks. -/
def ofText? (text : String) : Option Json := (marksFrom? .outside text.toList).bind ofMarks?

mutual

def marks : Json → List Mark
  | null => [.null]
  | string value => [.string value]
  | array items => .openArray :: List.intercalate [.comma] (itemMarks items) ++ [.closeArray]
  | object members =>
    .openObject :: List.intercalate [.comma] (memberMarks members) ++ [.closeObject]

def itemMarks : List Json → List (List Mark)
  | [] => []
  | item :: items => marks item :: itemMarks items

def memberMarks : List (String × Json) → List (List Mark)
  | [] => []
  | (key, value) :: members => (.string key :: .colon :: marks value) :: memberMarks members

end

@[elab_as_elim]
theorem induction {P : Json → Prop} (null : P null) (string : ∀ value, P (string value))
    (array : ∀ items, (∀ v ∈ items, P v) → P (array items))
    (object : ∀ members, (∀ m ∈ members, P m.2) → P (object members)) (value : Json) :
    P value := by
  refine @Json.rec P (fun items ↦ ∀ v ∈ items, P v) (fun members ↦ ∀ m ∈ members, P m.2)
    (fun m ↦ P m.2) null string array object nofun ?_ nofun ?_ ?_ value
  · exact fun _ _ hv hvs ↦ List.forall_mem_cons.mpr ⟨hv, hvs⟩
  · exact fun _ _ hm hms ↦ List.forall_mem_cons.mpr ⟨hm, hms⟩
  · exact fun _ _ hv ↦ hv

theorem itemMarks_eq (items : List Json) : itemMarks items = items.map marks := by
  induction items with
  | nil => rfl
  | cons item items ih => exact congrArg (marks item :: ·) ih

theorem memberMarks_eq (members : List (String × Json)) :
    memberMarks members = members.map (fun m ↦ .string m.1 :: .colon :: marks m.2) := by
  induction members with
  | nil => rfl
  | cons m members ih => exact congrArg ((.string m.1 :: .colon :: marks m.2) :: ·) ih

theorem printItems_eq (l : Layout) (depth : Nat) (items : List Json) :
    printItems l depth items = items.map (print l depth) := by
  induction items with
  | nil => rfl
  | cons item items ih => exact congrArg (print l depth item :: ·) ih

theorem printMembers_eq (l : Layout) (depth : Nat) (members : List (String × Json)) :
    printMembers l depth members =
      members.map (fun m ↦ quoted m.1 ++ ':' :: l.afterColon ++ print l depth m.2) := by
  induction members with
  | nil => rfl
  | cons m members ih =>
    exact congrArg ((quoted m.1 ++ ':' :: l.afterColon ++ print l depth m.2) :: ·) ih

/-- Whether a text that starts outside strings has these marks, whatever follows it. -/
def Reads (text : List Char) (ms : List Mark) : Prop :=
  ∀ rest, marksFrom? .outside (text ++ rest) = (ms ++ ·) <$> marksFrom? .outside rest

theorem Reads.nil : Reads [] [] := by
  intro rest
  simp

theorem Reads.append {cs ds : List Char} {ms ns : List Mark} (h : Reads cs ms) (h' : Reads ds ns) :
    Reads (cs ++ ds) (ms ++ ns) := by
  intro rest
  rw [List.append_assoc, h, h']
  simp [Function.comp_def]

theorem Reads.blanks {cs : List Char} (h : ∀ c ∈ cs, isBlank c = true) : Reads cs [] := by
  induction cs with
  | nil => exact .nil
  | cons c cs ih =>
    obtain ⟨hc, hcs⟩ := List.forall_mem_cons.mp h
    intro rest
    rw [List.cons_append, marksFrom?, if_pos hc]
    exact ih hcs rest

theorem reads_mark {c : Char} {m : Mark} (h : Mark.ofChar? c = some m) : Reads [c] [m] := by
  intro rest
  have hc : isBlank c = false ∧ c ≠ '"' ∧ c ≠ 'n' := by
    unfold Mark.ofChar? at h
    split at h <;> first | decide | cases h
  rw [List.singleton_append, marksFrom?, if_neg (by simp [hc.1]), if_neg hc.2.1, if_neg hc.2.2, h]
  rfl

theorem reads_null : Reads ['n', 'u', 'l', 'l'] [.null] := by
  intro rest
  rfl

theorem hexValue?_digitChar {d : Nat} (h : d < 16) : hexValue? (Nat.digitChar d) = some d := by
  have hall : ∀ d < 16, hexValue? (Nat.digitChar d) = some d := by decide
  exact hall d h

theorem marksFrom?_escaped (read : List Char) (c : Char) (rest : List Char) :
    marksFrom? (.string read) (escaped c ++ rest) = marksFrom? (.string (read ++ [c])) rest := by
  unfold escaped
  split
  case h_8 hq hs _ _ _ _ _ =>
    split
    · next hc =>
      have hcode : 16 * (16 * 0 + c.toNat / 16) + c.toNat % 16 = c.toNat := by omega
      have hvalid : c.toNat.isValidChar := c.valid
      change marksFrom? (.digits read 0 2) (_ :: _ :: rest) = _
      rw [marksFrom?, hexValue?_digitChar (by omega)]
      dsimp only
      rw [if_pos (by decide), marksFrom?, hexValue?_digitChar (by omega)]
      dsimp only
      rw [if_neg (by decide), hcode, if_pos hvalid, Char.ofNat_toNat]
    · next hc => rw [List.singleton_append, marksFrom?, if_neg hq, if_neg hs, if_neg hc]
  all_goals rfl

theorem reads_quoted (value : String) : Reads (quoted value) [.string value] := by
  have hstring : ∀ (cs read rest : List Char),
      marksFrom? (.string read) (cs.flatMap escaped ++ '"' :: rest) =
        (.string (String.ofList (read ++ cs)) :: ·) <$> marksFrom? .outside rest := by
    intro cs
    induction cs with
    | nil =>
      intro read rest
      rw [List.flatMap_nil, List.nil_append, marksFrom?, if_pos rfl, List.append_nil]
    | cons c cs ih =>
      intro read rest
      rw [List.flatMap_cons, List.append_assoc, marksFrom?_escaped, ih, List.append_assoc]
      rfl
  intro rest
  have hq : quoted value ++ rest = '"' :: (value.toList.flatMap escaped ++ '"' :: rest) := by
    simp [quoted]
  have h := hstring value.toList [] rest
  rw [List.nil_append, String.ofList_toList] at h
  rw [hq, marksFrom?, if_neg (by decide), if_pos rfl, h]
  rfl

section

variable {α : Type} {items : List α} {f : α → List Char} {g : α → List Mark}

theorem reads_flatMap (h : ∀ a ∈ items, Reads (f a) (g a)) :
    Reads (items.flatMap f) (items.flatMap g) := by
  induction items with
  | nil => exact .nil
  | cons a items ih =>
    obtain ⟨ha, hitems⟩ := List.forall_mem_cons.mp h
    exact ha.append (ih hitems)

theorem reads_intercalate {sep : List Char} (hs : Reads sep [.comma])
    (h : ∀ a ∈ items, Reads (f a) (g a)) :
    Reads (List.intercalate sep (items.map f)) (List.intercalate [.comma] (items.map g)) := by
  cases items with
  | nil => exact .nil
  | cons a items =>
    obtain ⟨ha, hitems⟩ := List.forall_mem_cons.mp h
    rw [List.map_cons, List.map_cons, intercalate_cons, intercalate_cons, List.flatMap_map,
      List.flatMap_map]
    exact ha.append (reads_flatMap fun b hb ↦ hs.append (hitems b hb))

structure Layout.Blank (l : Layout) : Prop where
  lineBreak : ∀ depth, ∀ c ∈ l.lineBreak depth, isBlank c = true
  afterColon : ∀ c ∈ l.afterColon, isBlank c = true

theorem blank_compact : compact.Blank := ⟨fun _ ↦ nofun, nofun⟩

theorem blank_pretty : pretty.Blank := by
  constructor
  · intro depth c hc
    rcases List.mem_cons.mp hc with rfl | hc
    · rfl
    · rw [List.eq_of_mem_replicate hc]
      rfl
  · intro c hc
    rw [List.mem_singleton.mp hc]
    rfl

theorem reads_block {l : Layout} (hl : l.Blank) (depth : Nat) {opening closing : Char}
    {first last : Mark} (ho : Mark.ofChar? opening = some first)
    (hc : Mark.ofChar? closing = some last) (h : ∀ a ∈ items, Reads (f a) (g a)) :
    Reads (l.block depth opening closing (items.map f))
      (first :: List.intercalate [.comma] (items.map g) ++ [last]) := by
  cases items with
  | nil => exact (reads_mark ho).append (reads_mark hc)
  | cons a items =>
    have hbreak := fun depth ↦ Reads.blanks (hl.lineBreak depth)
    have hsep : Reads (',' :: l.lineBreak (depth + 1)) [.comma] :=
      (reads_mark rfl).append (hbreak (depth + 1))
    have hstart : Reads (opening :: l.lineBreak (depth + 1)) [first] :=
      (reads_mark ho).append (hbreak (depth + 1))
    have hend := (hbreak depth).append (reads_mark hc)
    have hall := (hstart.append (reads_intercalate hsep h)).append hend
    rw [List.map_cons] at hall ⊢
    rw [Layout.block, List.isEmpty_cons, if_neg Bool.false_ne_true, List.append_assoc _ _ [closing]]
    exact hall

end

/-- A value is printed by its marks, with blanks between them. -/
theorem reads_print {l : Layout} (hl : l.Blank) (v : Json) (depth : Nat) :
    Reads (v.print l depth) v.marks := by
  induction v using Json.induction generalizing depth with
  | null => exact reads_null
  | string value => exact reads_quoted value
  | array items ih =>
    rw [print, printItems_eq, marks, itemMarks_eq]
    exact reads_block hl depth rfl rfl fun v hv ↦ ih v hv (depth + 1)
  | object members ih =>
    rw [print, printMembers_eq, marks, memberMarks_eq]
    refine reads_block hl depth rfl rfl fun m hm ↦ ?_
    have hcolon := (reads_mark (c := ':') rfl).append (Reads.blanks hl.afterColon)
    have hmember := (reads_quoted m.1).append (hcolon.append (ih m hm (depth + 1)))
    rwa [← List.append_assoc] at hmember

namespace State

def Expects (s : State) (outer : List Frame) : Prop :=
  ∀ m, m ≠ .closeArray → s.step? m = begin? outer m

theorem expects_value (outer : List Frame) : (value outer).Expects outer := fun _ _ ↦ rfl

theorem expects_arrayStart (outer : List Frame) :
    (arrayStart outer).Expects (.array [] :: outer) := by
  intro m hm
  cases m with
  | closeArray => exact absurd rfl hm
  | _ => rfl

abbrev Run (ms : List Mark) (s t : State) : Prop := ms.foldlM step? s = some t

theorem Run.append {ms ns : List Mark} {s t u : State} (h : Run ms s t) (h' : Run ns t u) :
    Run (ms ++ ns) s u := by
  rw [Run, List.foldlM_append, h]
  exact h'

theorem Run.cons {m : Mark} {ms : List Mark} {s t u : State} (h : s.step? m = some t)
    (h' : Run ms t u) : Run (m :: ms) s u := by
  rw [Run, List.foldlM_cons, h]
  exact h'

theorem run_items {items : List Json} {outer : List Frame}
    (h : ∀ v ∈ items, ∀ s outer, Expects s outer → Run v.marks s (done v outer))
    (v : Json) (read : List Json) :
    Run (items.flatMap ([.comma] ++ marks ·) ++ [.closeArray]) (done v (.array read :: outer))
      (done (.array (read ++ v :: items)) outer) := by
  induction items generalizing v read with
  | nil => rfl
  | cons w items ih =>
    obtain ⟨hw, hitems⟩ := List.forall_mem_cons.mp h
    have hrest := ih hitems w (read ++ [v])
    rw [List.append_assoc, List.singleton_append] at hrest
    rw [List.flatMap_cons, List.append_assoc, List.append_assoc, List.singleton_append]
    exact .cons rfl ((hw _ _ (expects_value _)).append hrest)

theorem run_members {members : List (String × Json)} {outer : List Frame}
    (h : ∀ m ∈ members, ∀ s outer, Expects s outer → Run m.2.marks s (done m.2 outer))
    (v : Json) (name : String) (read : List (String × Json)) :
    Run (members.flatMap (fun m ↦ [.comma] ++ .string m.1 :: .colon :: marks m.2) ++ [.closeObject])
      (done v (.object read name :: outer))
      (done (.object (read ++ (name, v) :: members)) outer) := by
  induction members generalizing v name read with
  | nil => rfl
  | cons m members ih =>
    obtain ⟨hm, hmembers⟩ := List.forall_mem_cons.mp h
    have hrest := ih hmembers m.2 m.1 (read ++ [(name, v)])
    rw [List.append_assoc, List.singleton_append] at hrest
    rw [List.flatMap_cons, List.append_assoc, List.append_assoc, List.singleton_append]
    exact .cons rfl (.cons rfl (.cons rfl ((hm _ _ (expects_value _)).append hrest)))

/-- Where a value may start, a reader reads it from its marks. -/
theorem run_marks (v : Json) {s : State} {outer : List Frame} (h : s.Expects outer) :
    Run v.marks s (done v outer) := by
  induction v using Json.induction generalizing s outer with
  | null => exact .cons (h .null nofun) rfl
  | string value => exact .cons (h (.string value) nofun) rfl
  | array items ih =>
    have hitems : ∀ v ∈ items, ∀ s outer, Expects s outer → Run v.marks s (done v outer) :=
      fun v hv s outer hs ↦ ih v hv hs
    rw [marks, itemMarks_eq, List.cons_append]
    refine .cons (h .openArray nofun) ?_
    cases items with
    | nil => rfl
    | cons w items =>
      obtain ⟨hw, hitems⟩ := List.forall_mem_cons.mp hitems
      rw [List.map_cons, intercalate_cons, List.flatMap_map, List.append_assoc]
      exact (hw _ _ (expects_arrayStart outer)).append (run_items hitems w [])
  | object members ih =>
    have hmembers : ∀ m ∈ members, ∀ s outer, Expects s outer →
        Run m.2.marks s (done m.2 outer) := fun m hm s outer hs ↦ ih m hm hs
    rw [marks, memberMarks_eq, List.cons_append]
    refine .cons (h .openObject nofun) ?_
    cases members with
    | nil => rfl
    | cons m members =>
      obtain ⟨hm, hmembers⟩ := List.forall_mem_cons.mp hmembers
      rw [List.map_cons, intercalate_cons, List.flatMap_map, List.append_assoc]
      exact .cons rfl (.cons rfl
        ((hm _ _ (expects_value _)).append (run_members hmembers m.2 m.1 [])))

end State

/-- Whatever blanks are between its marks, a value is read back from its text. -/
theorem ofText?_text {l : Layout} (hl : l.Blank) (v : Json) : ofText? (v.text l) = some v := by
  have hmarks := reads_print hl v 0 []
  rw [List.append_nil, marksFrom?] at hmarks
  have hrun : v.marks.foldlM State.step? (.value []) = some (.done v []) :=
    State.run_marks v (State.expects_value [])
  rw [ofText?, text, String.toList_ofList, hmarks]
  simp [ofMarks?, hrun]

end CstGrammar.Json
