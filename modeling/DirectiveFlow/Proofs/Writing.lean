import DirectiveFlow.Proofs.Grammar

namespace DirectiveFlow

namespace Token

section Runs

variable {mode : Mode} {start column : Nat} {reversed body rest : List Char} {c : Char}
  {text : String}

theorem scan_quoted_append (h : '"' ∉ body) :
    scan (.quoted start reversed) column (body ++ rest) =
      scan (.quoted start (body.reverse ++ reversed)) (column + body.length) rest := by
  induction body generalizing reversed column with
  | nil => rfl
  | cons c body ih =>
    simp only [List.mem_cons, not_or] at h
    rw [List.cons_append, scan, if_neg (Ne.symm h.1), ih h.2]
    simp [Nat.add_comm, Nat.add_left_comm]

theorem scan_plain (hm : ¬ mode.Quoting) (hc : c ∉ marks) :
    scan mode column (c :: rest) = scan (mode.extend column c) (column + 1) rest := by
  obtain ⟨hq, hh, hs, hk⟩ := not_mem_marks.mp hc
  cases mode with
  | quoted start reversed => exact absurd trivial hm
  | between | word => simp [scan, hq, hh, hs, hk]

theorem scan_word_append (h : ∀ c ∈ body, c ∉ marks) :
    scan (.word start reversed) column (body ++ rest) =
      scan (.word start (body.reverse ++ reversed)) (column + body.length) rest := by
  induction body generalizing reversed column with
  | nil => rfl
  | cons c body ih =>
    obtain ⟨hc, hb⟩ := List.forall_mem_cons.mp h
    rw [List.cons_append, scan_plain id hc, Mode.extend, ih hb]
    simp [Nat.add_comm, Nat.add_left_comm]

/-- The line ends here, or a mark comes next. -/
def Apart (rest : List Char) : Prop :=
  ∀ c ∈ rest.head?, c ∈ marks

theorem apart_cons (h : c ∈ marks) : Apart (c :: rest) := by
  rintro c ⟨⟩
  exact h

theorem Apart.append {front : List Char} (hf : Apart front) (hr : Apart rest) :
    Apart (front ++ rest) := by
  cases front with
  | nil => exact hr
  | cons c front => exact hf

theorem scan_word_apart (h : Apart rest) :
    scan (.word start reversed) column rest =
      collected start reversed ++ scan .between column rest := by
  cases rest with
  | nil => rfl
  | cons c rest =>
    have hc : c ∈ marks := h c rfl
    simp only [marks, List.mem_cons, List.not_mem_nil, or_false] at hc
    rcases hc with rfl | rfl | rfl | rfl | rfl | rfl | rfl | rfl <;> rfl

theorem symbolOf_toList (h : Quotable text) : symbolOf text.toList = .literal text := by
  have hcontrol (c : Char) (hc : text.toList = [c]) : control? c = none := by
    have ht : text = String.ofList [c] := by rw [← hc, String.ofList_toList]
    apply control?_eq_none.mpr
    refine ⟨?_, ?_, ?_⟩
    all_goals
      rintro rfl
      exact h.2.2 (ht ▸ by decide)
  unfold symbolOf
  split
  · rename_i c hc
    rw [hcontrol c hc, Option.getD_none, ← hc, String.ofList_toList]
  · rw [String.ofList_toList]

theorem collected_toList (h : Quotable text) :
    collected start text.toList.reverse = [⟨.literal text, start⟩] := by
  have hn : text.toList.reverse ≠ [] := by simpa using h.1
  rw [collected, if_neg (by simpa using hn), List.reverse_reverse, symbolOf_toList h]

end Runs

/-- Characters that are scanned as these symbols wherever what follows them stands apart. -/
def Spells (written : List Char) (w : List Symbol) : Prop :=
  ∀ column rest, Apart rest →
    (scan .between column (written ++ rest)).map symbol =
      w ++ (scan .between (column + written.length) rest).map symbol

section Spells

variable {a b : List Char} {u v : List Symbol} {c : Char} {kind : Symbol} {text : String}

theorem spells_nil : Spells [] [] :=
  fun _ _ _ => rfl

theorem Spells.append (h : Spells a u) (h' : Spells b v) (hb : Apart b) :
    Spells (a ++ b) (u ++ v) := by
  intro column rest hr
  rw [List.append_assoc, h column _ (hb.append hr), h' _ rest hr, List.append_assoc,
    List.length_append, Nat.add_assoc]

theorem Spells.space (h : Spells a u) : Spells (' ' :: a) u := by
  intro column rest hr
  change (scan .between (column + 1) (a ++ rest)).map symbol = _
  rw [h (column + 1) rest hr, List.length_cons, Nat.add_assoc, Nat.add_comm 1]

theorem Spells.control (h : Spells a u) (hc : control? c = some kind) :
    Spells (c :: a) (kind :: u) := by
  intro column rest hr
  have hs : scan .between column (c :: (a ++ rest)) =
      ⟨kind, column⟩ :: scan .between (column + 1) (a ++ rest) := by
    unfold control? at hc
    split at hc <;> cases hc <;> rfl
  rw [List.cons_append, hs, List.map_cons, h (column + 1) rest hr, List.length_cons,
    Nat.add_assoc, Nat.add_comm 1]
  rfl

theorem spells_bare (h : Bare text) : Spells text.toList [.literal text] := by
  intro column rest hr
  have hl : collected column text.toList.reverse = [⟨.literal text, column⟩] :=
    collected_toList h.quotable
  have hc := h.2
  cases ht : text.toList with
  | nil => exact absurd (String.toList_eq_nil_iff.mp ht) h.1
  | cons c body =>
    rw [ht] at hl hc
    obtain ⟨hc, hb⟩ := List.forall_mem_cons.mp hc
    have hfirst : scan .between column (c :: (body ++ rest)) =
        scan (.word column [c]) (column + 1) (body ++ rest) := scan_plain id hc
    rw [List.cons_append, hfirst, scan_word_append hb, scan_word_apart hr, ← List.reverse_cons, hl,
      List.length_cons, Nat.add_assoc, Nat.add_comm 1]
    rfl

/-- The text between quotes. -/
def inQuotes (text : String) : String :=
  "\"" ++ text ++ "\""

theorem spells_inQuotes (h : Quotable text) : Spells (inQuotes text).toList [.literal text] := by
  intro column rest _
  have ht : (inQuotes text).toList ++ rest = '"' :: (text.toList ++ '"' :: rest) := by
    simp [inQuotes, String.toList_append]
  have hlen : (inQuotes text).toList.length = 1 + text.toList.length + 1 := by
    simp [inQuotes]
    omega
  have hquote : scan .between column ('"' :: (text.toList ++ '"' :: rest)) =
      scan (.quoted column []) (column + 1) (text.toList ++ '"' :: rest) := rfl
  have hclose : scan (.quoted column text.toList.reverse) (column + 1 + text.toList.length)
      ('"' :: rest) = collected column text.toList.reverse ++
        scan .between (column + 1 + text.toList.length + 1) rest := rfl
  rw [ht, hquote, scan_quoted_append h.2.1, List.append_nil, hclose, collected_toList h, hlen]
  simp [Nat.add_assoc]

end Spells

end Token

namespace Directive

open Token (Spells Apart Bare Quotable inQuotes marks)

def fields (d : Directive) : List String :=
  d.name :: (d.inputs ++ d.outputs ++ d.params)

/-- The directive with every name and parameter written anew. -/
def mapFields (write : String → String) (d : Directive) : Directive :=
  ⟨write d.name, d.inputs.map write, d.outputs.map write, d.params.map write⟩

/-- The symbols of a directive that has a name, without the end of the line. -/
def symbols (d : Directive) : List Symbol :=
  .literal d.name :: ((if d.inputs.isEmpty && d.outputs.isEmpty then [] else
    .openBracket :: (d.inputs.map .literal ++
      .arrow :: (d.outputs.map .literal ++ [.closeBracket]))) ++ d.params.map .literal)

/-- Texts with a blank in front of each. -/
def spaced (texts : List String) : List Char :=
  texts.flatMap fun text => ' ' :: text.toList

theorem toList_intercalate_cons (text : String) (texts : List String) :
    (" ".intercalate (text :: texts)).toList = text.toList ++ spaced texts := by
  induction texts generalizing text with
  | nil => simp [spaced]
  | cons next texts ih =>
    rw [String.intercalate_cons_cons, String.toList_append, String.toList_append, ih]
    simp [spaced]

theorem toList_render (d : Directive) : d.render.toList = d.name.toList ++
    ((if d.inputs.isEmpty && d.outputs.isEmpty then [] else
      ' ' :: '(' :: ((" ".intercalate d.inputs).toList ++ ' ' :: '>' :: ' ' ::
        ((" ".intercalate d.outputs).toList ++ [')']))) ++ spaced d.params) := by
  unfold render
  split <;> simp [spaced, String.toList_append, String.toList_join, List.flatMap_map]

section Render

variable {write : String → String} {texts : List String} {d : Directive}

theorem apart_spaced : Apart (spaced texts) := by
  cases texts with
  | nil => exact nofun
  | cons text texts => exact Token.apart_cons (by decide)

theorem spells_spaced (h : ∀ text ∈ texts, Spells (write text).toList [.literal text]) :
    Spells (spaced (texts.map write)) (texts.map .literal) := by
  induction texts with
  | nil => exact Token.spells_nil
  | cons text texts ih =>
    obtain ⟨ht, h⟩ := List.forall_mem_cons.mp h
    exact (ht.append (ih h) apart_spaced).space

theorem spells_intercalate (h : ∀ text ∈ texts, Spells (write text).toList [.literal text]) :
    Spells (" ".intercalate (texts.map write)).toList (texts.map .literal) := by
  cases texts with
  | nil => exact Token.spells_nil
  | cons text texts =>
    obtain ⟨ht, h⟩ := List.forall_mem_cons.mp h
    rw [List.map_cons, toList_intercalate_cons]
    exact ht.append (spells_spaced h) apart_spaced

theorem spells_render (h : ∀ text ∈ d.fields, Spells (write text).toList [.literal text]) :
    Spells (d.mapFields write).render.toList d.symbols := by
  obtain ⟨hname, h⟩ := List.forall_mem_cons.mp h
  obtain ⟨h, hparams⟩ := List.forall_mem_append.mp h
  obtain ⟨hinputs, houtputs⟩ := List.forall_mem_append.mp h
  rw [toList_render]
  simp only [mapFields, List.isEmpty_map]
  have hrest := spells_spaced hparams
  unfold symbols
  by_cases he : d.inputs.isEmpty && d.outputs.isEmpty
  · rw [if_pos he, if_pos he]
    exact hname.append hrest apart_spaced
  · rw [if_neg he, if_neg he]
    have houts := (spells_intercalate houtputs).append
      (hrest.control (c := ')') rfl) (Token.apart_cons (by decide))
    have hins := (spells_intercalate hinputs).append
      (houts.space.control (c := '>') rfl).space (Token.apart_cons (by decide))
    have hio := hname.append (hins.control (c := '(') rfl).space (Token.apart_cons (by decide))
    simpa using hio

theorem symbols_of_render (h : ∀ text ∈ d.fields, Spells (write text).toList [.literal text]) :
    (Token.ofLine (d.mapFields write).render).map Token.symbol = d.symbols ++ [.lineEnd] := by
  have hs := spells_render h 0 [] nofun
  rw [List.append_nil] at hs
  exact hs

end Render

section Run

variable {p q : Position} {d e : Directive} {v w : List Symbol}

theorem run_append (h : run p d v = some (q, e)) : run p d (v ++ w) = run q e w := by
  unfold run at h ⊢
  rw [List.foldlM_append, h]
  rfl

/-- The directive with more texts where the literals at a position go. -/
def collect (p : Position) (d : Directive) (texts : List String) : Directive :=
  match p with
  | .input => { d with inputs := d.inputs ++ texts }
  | .output => { d with outputs := d.outputs ++ texts }
  | .param => { d with params := d.params ++ texts }
  | _ => d

theorem run_literals (hp : p ∈ [.input, .output, .param]) (texts : List String) :
    run p d (texts.map .literal) = some (p, collect p d texts) := by
  simp only [List.mem_cons, List.not_mem_nil, or_false] at hp
  induction texts generalizing d with
  | nil => rcases hp with rfl | rfl | rfl <;> simp [run, collect]
  | cons text texts ih =>
    rw [List.map_cons, run_cons]
    rcases hp with rfl | rfl | rfl <;> simp [advance?, ih, collect]

theorem run_params (d : Directive) (texts : List String) :
    run .param d (texts.map .literal ++ [.lineEnd]) =
      some (.nothing, { d with params := d.params ++ texts }) :=
  run_append (run_literals (by decide) texts)

theorem run_symbols (d : Directive) :
    run .name blank (d.symbols ++ [.lineEnd]) = some (.nothing, d) := by
  obtain ⟨name, inputs, outputs, params⟩ := d
  unfold symbols
  by_cases he : inputs.isEmpty && outputs.isEmpty
  · rw [if_pos he]
    obtain ⟨hi, ho⟩ := (Bool.and_eq_true ..).mp he
    cases List.isEmpty_iff.mp hi
    cases List.isEmpty_iff.mp ho
    cases params with
    | nil => rfl
    | cons param params => exact run_params ⟨name, [], [], [param]⟩ params
  · rw [if_neg he]
    have hassoc : Symbol.literal name :: (.openBracket :: (inputs.map .literal ++
        .arrow :: (outputs.map .literal ++ [.closeBracket])) ++ params.map .literal) ++ [.lineEnd] =
          .literal name :: .openBracket :: (inputs.map .literal ++ .arrow ::
            (outputs.map .literal ++ .closeBracket :: (params.map .literal ++ [.lineEnd]))) := by
      simp
    rw [hassoc]
    calc run .input ⟨name, [], [], []⟩ (inputs.map .literal ++ .arrow :: (outputs.map .literal ++
          .closeBracket :: (params.map .literal ++ [.lineEnd])))
        = run .output ⟨name, inputs, [], []⟩ (outputs.map .literal ++
          .closeBracket :: (params.map .literal ++ [.lineEnd])) :=
          run_append (run_literals (by decide) inputs)
      _ = run .param ⟨name, inputs, outputs, []⟩ (params.map .literal ++ [.lineEnd]) :=
          run_append (run_literals (by decide) outputs)
      _ = some (.nothing, ⟨name, inputs, outputs, params⟩) := run_params _ params

end Run

theorem ofLine_render_of_spells {write : String → String} {d : Directive}
    (h : ∀ text ∈ d.fields, Spells (write text).toList [.literal text]) :
    ofLine (d.mapFields write).render = .ok d := by
  unfold ofLine ofTokens
  rw [readFrom_eq_ok, symbols_of_render h]
  exact ⟨.nothing, run_symbols d⟩

theorem mem_texts {w : List Symbol} {text : String} : text ∈ texts w ↔ .literal text ∈ w := by
  unfold texts
  rw [List.mem_filterMap]
  constructor
  · rintro ⟨s, hs, he⟩
    cases s with
    | literal text => cases he; exact hs
    | openBracket | closeBracket | arrow | lineEnd => cases he
  · intro h
    exact ⟨_, h, rfl⟩

theorem fields_spelled (w : List Symbol) :
    spelled w = blank ∨ ∀ text ∈ (spelled w).fields, .literal text ∈ w := by
  have hsub {v : List Symbol} (hv : v.Sublist w) : ∀ text ∈ texts v, text ∈ texts w :=
    fun text ht => mem_texts.mpr (hv.subset (mem_texts.mp ht))
  have hb : (brackets w).Sublist w :=
    (List.takeWhile_sublist _).trans (List.dropWhile_sublist _)
  have hinputs : ∀ text ∈ inputTexts w, text ∈ texts w := hsub ((List.takeWhile_sublist _).trans hb)
  have houtputs : ∀ text ∈ outputTexts w, text ∈ texts w :=
    hsub ((List.dropWhile_sublist _).trans hb)
  cases ht : texts w with
  | nil =>
    simp only [ht, List.not_mem_nil, imp_false] at hinputs houtputs
    left
    unfold spelled
    rw [ht, List.eq_nil_iff_forall_not_mem.mpr hinputs, List.eq_nil_iff_forall_not_mem.mpr houtputs]
    rfl
  | cons name rest =>
    refine .inr fun text hm => mem_texts.mp ?_
    rcases List.mem_cons.mp hm with rfl | hm
    · rw [spelled, ht]
      exact List.mem_cons_self
    · rcases List.mem_append.mp hm with hm | hm
      · exact (List.mem_append.mp hm).elim (hinputs text) (houtputs text)
      · exact List.mem_of_mem_drop hm

/-- Every field of what is read may stand in quotes, and of a line without quotes as it is. -/
theorem field_of_ofLine {line : String} {d : Directive} (h : ofLine line = .ok d) :
    d = blank ∨ ∀ text ∈ d.fields, Bare text ∨ Quotable text ∧ '"' ∈ line.toList := by
  obtain ⟨-, rfl⟩ := ofTokens_eq_ok.mp h
  refine (fields_spelled _).imp_right fun hf text ht => ?_
  obtain ⟨t, hm, hs⟩ := List.mem_map.mp (hf text ht)
  have hclean : Token.Mode.between.Clean := trivial
  have hl := Token.allowed_scan hclean t hm text hs
  exact hl.imp_right (.imp_right fun hq => hq.resolve_left id)

theorem mapFields_id (d : Directive) : d.mapFields id = d := by
  simp [mapFields]

theorem mem_spaced {texts : List String} {c : Char} (h : c ∈ spaced texts) :
    c = ' ' ∨ ∃ text ∈ texts, c ∈ text.toList := by
  obtain ⟨text, ht, hc⟩ := List.mem_flatMap.mp h
  exact (List.mem_cons.mp hc).imp_right fun hc => ⟨text, ht, hc⟩

theorem mem_intercalate {texts : List String} {c : Char} (h : c ∈ (" ".intercalate texts).toList) :
    c = ' ' ∨ ∃ text ∈ texts, c ∈ text.toList := by
  cases texts with
  | nil => cases h
  | cons text texts =>
    rw [toList_intercalate_cons] at h
    rcases List.mem_append.mp h with h | h
    · exact .inr ⟨text, List.mem_cons_self, h⟩
    · exact (mem_spaced h).imp_right fun ⟨t, ht, hc⟩ => ⟨t, List.mem_cons_of_mem _ ht, hc⟩

theorem quote_mem_render {d : Directive} (h : '"' ∈ d.render.toList) :
    ∃ text ∈ d.fields, '"' ∈ text.toList := by
  have hfield {texts : List String} (hs : ∀ text ∈ texts, text ∈ d.fields)
      (ht : '"' = ' ' ∨ ∃ text ∈ texts, '"' ∈ text.toList) :
      ∃ text ∈ d.fields, '"' ∈ text.toList :=
    (ht.resolve_left (by decide)).imp fun text => .imp_left (hs text)
  rw [toList_render] at h
  rcases List.mem_append.mp h with h | h
  · exact ⟨d.name, List.mem_cons_self, h⟩
  rcases List.mem_append.mp h with h | h
  · split at h
    · cases h
    · have hio : '"' ∈ (" ".intercalate d.inputs).toList ∨
          '"' ∈ (" ".intercalate d.outputs).toList := by simpa using h
      rcases hio with h | h
      · exact hfield (by simp +contextual [fields]) (mem_intercalate h)
      · exact hfield (by simp +contextual [fields]) (mem_intercalate h)
  · exact hfield (by simp +contextual [fields]) (mem_spaced h)

/-- What is rendered reads back exactly if nothing in it needs quotes. -/
theorem ofLine_render_iff (d : Directive) :
    ofLine d.render = .ok d ↔ d = blank ∨ ∀ text ∈ d.fields, Bare text := by
  constructor
  · intro h
    refine (field_of_ofLine h).imp_right fun hf text ht => (hf text ht).resolve_right ?_
    rintro ⟨-, hq⟩
    obtain ⟨text', ht', hq'⟩ := quote_mem_render hq
    rcases hf text' ht' with hb | ⟨hb, -⟩
    · exact hb.quotable.2.1 hq'
    · exact hb.2.1 hq'
  · rintro (rfl | h)
    · rfl
    · have hw : ofLine (d.mapFields id).render = .ok d :=
        ofLine_render_of_spells fun text ht => Token.spells_bare (h text ht)
      rwa [mapFields_id] at hw

/-- The directives that a line can call are those whose fields may all stand in quotes, and then
the line with each field in quotes calls it. -/
theorem exists_line_iff (d : Directive) :
    ((∃ line, ofLine line = .ok d) ↔ d = blank ∨ ∀ text ∈ d.fields, Quotable text) ∧
    (ofLine (d.mapFields inQuotes).render = .ok d ↔
      d = blank ∨ ∀ text ∈ d.fields, Quotable text) := by
  have hline {line : String} (h : ofLine line = .ok d) :
      d = blank ∨ ∀ text ∈ d.fields, Quotable text :=
    (field_of_ofLine h).imp_right fun hf text ht => (hf text ht).elim Bare.quotable And.left
  have hquotes (h : d = blank ∨ ∀ text ∈ d.fields, Quotable text) :
      ofLine (d.mapFields inQuotes).render = .ok d := by
    rcases h with rfl | h
    · rfl
    · exact ofLine_render_of_spells fun text ht => Token.spells_inQuotes (h text ht)
  exact ⟨⟨fun ⟨line, h⟩ => hline h, fun h => ⟨_, hquotes h⟩⟩, hline, hquotes⟩

end Directive

end DirectiveFlow
