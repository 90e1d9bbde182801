import DirectiveFlow.Text.Lines

namespace DirectiveFlow

namespace Token

/-- The characters that do not stand for themselves outside quotes. -/
def marks : List Char :=
  [' ', '\t', ',', '"', '(', ')', '>', '#']

/-- A text that a line may hold as it is. -/
def Bare (text : String) : Prop :=
  text ≠ "" ∧ ∀ c ∈ text.toList, c ∉ marks

/-- A text that a line may hold in quotes. -/
def Quotable (text : String) : Prop :=
  text ≠ "" ∧ '"' ∉ text.toList ∧ text ∉ ["(", ")", ">"]

section Characters

variable {c : Char} {kind : Symbol} {text : String} {cs : List Char}

theorem control?_eq_none : control? c = none ↔ c ≠ '(' ∧ c ≠ ')' ∧ c ≠ '>' := by
  unfold control?
  split <;> simp_all

theorem not_mem_marks :
    c ∉ marks ↔ c ≠ '"' ∧ c ≠ '#' ∧ ¬ isSeparator c ∧ control? c = none := by
  simp only [control?_eq_none, marks, isSeparator, List.mem_cons, List.not_mem_nil, or_false,
    not_or, Bool.or_eq_true, decide_eq_true_eq]
  exact ⟨fun ⟨hb, ht, hm, hq, ho, hc, ha, hh⟩ => ⟨hq, hh, ⟨⟨hb, ht⟩, hm⟩, ho, hc, ha⟩,
    fun ⟨hq, hh, ⟨⟨hb, ht⟩, hm⟩, ho, hc, ha⟩ => ⟨hb, ht, hm, hq, ho, hc, ha, hh⟩⟩

theorem exists_control (h : text ∈ ["(", ")", ">"]) :
    ∃ c kind, text.toList = [c] ∧ control? c = some kind := by
  simp only [List.mem_cons, List.not_mem_nil, or_false] at h
  rcases h with rfl | rfl | rfl
  · exact ⟨'(', .openBracket, rfl, rfl⟩
  · exact ⟨')', .closeBracket, rfl, rfl⟩
  · exact ⟨'>', .arrow, rfl, rfl⟩

theorem Bare.quotable (h : Bare text) : Quotable text := by
  refine ⟨h.1, fun hq => h.2 _ hq (by decide), fun hc => ?_⟩
  obtain ⟨c, kind, ht, hk⟩ := exists_control hc
  have hn := (not_mem_marks.mp (h.2 c (ht ▸ List.mem_cons_self))).2.2.2
  cases hk.symm.trans hn

theorem not_literal_of_control? (h : control? c = some kind) : kind ≠ .literal text := by
  rintro rfl
  unfold control? at h
  split at h <;> cases h

theorem symbolOf_eq_literal (h : symbolOf cs = .literal text) :
    text = String.ofList cs ∧ ∀ c, cs = [c] → control? c = none := by
  unfold symbolOf at h
  split at h
  · rename_i c
    cases hc : control? c with
    | none =>
      rw [hc] at h
      cases h
      exact ⟨rfl, fun c' hc' => by cases hc'; exact hc⟩
    | some kind =>
      rw [hc] at h
      exact absurd h (not_literal_of_control? hc)
  · rename_i hn
    cases h
    exact ⟨rfl, fun c hc => absurd hc (hn c)⟩

theorem mem_collected {start : Nat} {reversed : List Char} {t : Token} :
    t ∈ collected start reversed ↔ reversed ≠ [] ∧ t = ⟨symbolOf reversed.reverse, start⟩ := by
  unfold collected
  cases reversed with
  | nil => simp
  | cons c reversed => simp

end Characters

/-- What a scan has collected: no mark in a word, and no quote behind one. -/
def Mode.Clean : Mode → Prop
  | .between => True
  | .word _ reversed => reversed ≠ [] ∧ ∀ c ∈ reversed, c ∉ marks
  | .quoted _ reversed => '"' ∉ reversed

def Mode.Quoting : Mode → Prop
  | .quoted .. => True
  | _ => False

section Scan

variable {mode : Mode} {column : Nat} {cs : List Char} {c : Char}

theorem Mode.Clean.extend (h : mode.Clean) (hc : c ∉ marks) : (mode.extend column c).Clean := by
  cases mode with
  | word start reversed => exact ⟨List.cons_ne_nil _ _, List.forall_mem_cons.mpr ⟨hc, h.2⟩⟩
  | between | quoted => exact ⟨List.cons_ne_nil _ _, List.forall_mem_singleton.mpr hc⟩

theorem Mode.not_quoting_extend : ¬ (mode.extend column c).Quoting := by
  cases mode <;> exact id

/-- The token is no literal, or one that may stand as it is or, if there are quotes, in them. -/
def Allowed (quotes : Prop) (t : Token) : Prop :=
  ∀ text, t.symbol = .literal text → Bare text ∨ Quotable text ∧ quotes

theorem allowed_mono {quotes quotes' : Prop} {ts : List Token} (h : ∀ t ∈ ts, Allowed quotes t)
    (hq : quotes → quotes') : ∀ t ∈ ts, Allowed quotes' t :=
  fun t ht text hs => (h t ht text hs).imp_right (.imp_right hq)

theorem allowed_lineEnd {quotes : Prop} : ∀ t ∈ [⟨.lineEnd, column⟩], Allowed quotes t :=
  List.forall_mem_singleton.mpr nofun

theorem Mode.Clean.allowed (h : mode.Clean) : ∀ t ∈ mode.pending, Allowed mode.Quoting t := by
  intro t ht text hs
  cases mode with
  | between => cases ht
  | word start reversed =>
    obtain ⟨hn, rfl⟩ := mem_collected.mp ht
    obtain ⟨rfl, -⟩ := symbolOf_eq_literal hs
    refine .inl ⟨by simpa using hn, fun c hc => ?_⟩
    rw [String.toList_ofList, List.mem_reverse] at hc
    exact h.2 c hc
  | quoted start reversed =>
    obtain ⟨hn, rfl⟩ := mem_collected.mp ht
    obtain ⟨rfl, hone⟩ := symbolOf_eq_literal hs
    refine .inr ⟨⟨by simpa using hn, ?_, fun hc => ?_⟩, trivial⟩
    · rw [String.toList_ofList, List.mem_reverse]
      exact h
    · obtain ⟨c, kind, hc, hk⟩ := exists_control hc
      rw [String.toList_ofList] at hc
      cases hk.symm.trans (hone c hc)

/-- A literal is a text that may stand in quotes, and where no quote is read one that may
stand without. -/
theorem allowed_scan (hm : mode.Clean) :
    ∀ t ∈ scan mode column cs, Allowed (mode.Quoting ∨ '"' ∈ cs) t := by
  fun_induction scan mode column cs with
  | case1 mode column =>
    exact List.forall_mem_append.mpr ⟨allowed_mono hm.allowed .inl, allowed_lineEnd⟩
  | case2 column rest start reversed ih => -- a closing quote
    exact List.forall_mem_append.mpr ⟨allowed_mono hm.allowed .inl,
      allowed_mono (ih trivial) fun _ => .inl trivial⟩
  | case3 column c rest start reversed hq ih => -- a character in quotes
    have hm' : (Mode.quoted start (c :: reversed)).Clean := by
      simpa [Mode.Clean, Ne.symm hq] using hm
    exact allowed_mono (ih hm') fun _ => .inl trivial
  | case4 column rest mode hn ih => -- an opening quote
    exact List.forall_mem_append.mpr ⟨allowed_mono hm.allowed .inl,
      allowed_mono (ih List.not_mem_nil) fun _ => .inr List.mem_cons_self⟩
  | case5 column rest mode hn hq => -- a comment
    exact List.forall_mem_append.mpr ⟨allowed_mono hm.allowed .inl, allowed_lineEnd⟩
  | case6 column c rest mode hn hq hh hsep ih => -- a separator
    exact List.forall_mem_append.mpr ⟨allowed_mono hm.allowed .inl,
      allowed_mono (ih trivial) fun h => .inr (.tail _ (h.resolve_left id))⟩
  | case7 column c rest mode hn hq hh hsep kind hk ih => -- a control character
    refine List.forall_mem_append.mpr ⟨allowed_mono hm.allowed .inl, List.forall_mem_cons.mpr ⟨?_,
      allowed_mono (ih trivial) fun h => .inr (.tail _ (h.resolve_left id))⟩⟩
    exact fun text hs => absurd hs (not_literal_of_control? hk)
  | case8 column c rest mode hn hq hh hsep hk ih => -- any other character
    have hc : c ∉ marks := not_mem_marks.mpr ⟨hq, hh, hsep, hk⟩
    exact allowed_mono (ih (hm.extend hc))
      fun h => .inr (.tail _ (h.resolve_left Mode.not_quoting_extend))

theorem lineEnd_mem_scan : .lineEnd ∈ (scan mode column cs).map symbol := by
  fun_induction scan mode column cs <;> simp_all

end Scan

end Token

end DirectiveFlow
