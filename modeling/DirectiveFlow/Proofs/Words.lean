import DirectiveFlow.Proofs.Seams
import DirectiveFlow.Proofs.Writing

namespace DirectiveFlow

namespace Token

/-- The pieces between separators that are not empty. -/
def words (chars : List Char) : List (List Char) :=
  (chars.splitOnP isSeparator).filter (· ≠ [])

/-- No character is a bracket, an arrow, a quote or a `#`. -/
def Unmarked (chars : List Char) : Prop :=
  ∀ c ∈ chars, c ∉ ['(', ')', '>', '"', '#']

/-- Only separators, and at least one. -/
def Separators (chars : List Char) : Prop :=
  chars ≠ [] ∧ ∀ c ∈ chars, isSeparator c

instance (chars : List Char) : Decidable (Unmarked chars) :=
  List.decidableBAll (· ∉ ['(', ')', '>', '"', '#']) chars

instance (chars : List Char) : Decidable (Separators chars) :=
  @instDecidableAnd _ _ inferInstance (List.decidableBAll (isSeparator ·) chars)

section Words

variable {gaps chars : List Char} {c : Char}

theorem words_append_separator (front back : List Char) (hc : isSeparator c) :
    words (front ++ c :: back) = words front ++ words back := by
  rw [words, List.splitOnP_append_cons front back hc, List.filter_append]
  rfl

theorem words_separators (h : ∀ c ∈ gaps, isSeparator c) (back : List Char) :
    words (gaps ++ back) = words back := by
  induction gaps with
  | nil => rfl
  | cons c gaps ih =>
    obtain ⟨hc, h⟩ := List.forall_mem_cons.mp h
    have hcons : words (c :: (gaps ++ back)) = words (gaps ++ back) :=
      words_append_separator [] _ hc
    rw [List.cons_append, hcons, ih h]

theorem words_eq_singleton (hn : chars ≠ []) (h : ∀ c ∈ chars, ¬ isSeparator c) :
    words chars = [chars] := by
  rw [words, List.splitOnP_eq_singleton fun c hc => Bool.eq_false_iff.mpr (h c hc)]
  simp [hn]

theorem Separators.words_append (h : Separators gaps) (front back : List Char) :
    words (front ++ gaps ++ back) = words front ++ words back := by
  obtain ⟨hn, h⟩ := h
  cases gaps with
  | nil => exact (hn rfl).elim
  | cons c gaps =>
    obtain ⟨hc, h⟩ := List.forall_mem_cons.mp h
    rw [List.append_assoc, List.cons_append, words_append_separator front _ hc,
      words_separators h]

theorem Separators.unmarked (h : Separators gaps) : Unmarked gaps := by
  intro c hc hm
  have hs := h.2 c hc
  simp only [List.mem_cons, List.not_mem_nil, or_false] at hm
  rcases hm with rfl | rfl | rfl | rfl | rfl <;> cases hs

theorem Unmarked.not_mem_marks (h : Unmarked chars) (hc : c ∈ chars) (hs : ¬ isSeparator c) :
    c ∉ marks := by
  have hm := h c hc
  simp only [List.mem_cons, List.not_mem_nil, or_false, not_or] at hm
  obtain ⟨hopen, hclose, harrow, hquote, hhash⟩ := hm
  have hcontrol : control? c = none := control?_eq_none.mpr ⟨hopen, hclose, harrow⟩
  exact Token.not_mem_marks.mpr ⟨hquote, hhash, hs, hcontrol⟩

end Words

/-- What a scan has collected of the text before it. -/
def Mode.text : Mode → List Char
  | .between => []
  | .word _ reversed => reversed.reverse
  | .quoted _ reversed => reversed.reverse

section Scan

variable {mode : Mode} {column : Nat} {c : Char} {cs : List Char}

theorem Mode.text_extend (h : ¬ mode.Quoting) :
    (mode.extend column c).text = mode.text ++ [c] := by
  cases mode with
  | between => rfl
  | word start reversed => exact List.reverse_cons
  | quoted start reversed => exact (h trivial).elim

theorem Mode.Clean.pending_words (hm : mode.Clean) (hq : ¬ mode.Quoting) :
    mode.pending.map symbol = (words mode.text).map fun word => .literal (String.ofList word) := by
  cases mode with
  | between => rfl
  | word start reversed =>
    obtain ⟨hn, hc⟩ := hm
    have hmarks : ∀ c ∈ reversed.reverse, c ∉ marks := fun c h => hc c (List.mem_reverse.mp h)
    have hwords : words reversed.reverse = [reversed.reverse] :=
      words_eq_singleton (by simpa using hn) fun c h => (not_mem_marks.mp (hmarks c h)).2.2.1
    rw [pending, collected_of_ne_nil hn, symbolOf_eq _ hmarks, text, hwords]
    rfl
  | quoted start reversed => exact (hq trivial).elim

/-- What a scan gives of unmarked text are the words of it and of what is pending. -/
theorem symbols_scan (hm : mode.Clean) (hq : ¬ mode.Quoting) (h : Unmarked cs) :
    (scan mode column cs).map symbol =
      (words (mode.text ++ cs)).map (fun word => .literal (String.ofList word)) ++ [.lineEnd] := by
  induction cs generalizing mode column with
  | nil =>
    rw [scan, List.map_append, hm.pending_words hq, List.append_nil]
    rfl
  | cons c cs ih =>
    have hcs : Unmarked cs := (List.forall_mem_cons.mp h).2
    by_cases hs : isSeparator c
    · have hbetween : Mode.between.Clean := trivial
      rw [scan_separator hq hs, List.map_append, hm.pending_words hq, ih hbetween id hcs,
        words_append_separator _ _ hs, List.map_append, List.append_assoc]
      rfl
    · have hc := h.not_mem_marks List.mem_cons_self hs
      rw [scan_plain hq hc, ih (hm.extend hc) Mode.not_quoting_extend hcs, Mode.text_extend hq,
        List.append_assoc, List.singleton_append]

end Scan

end Token

namespace Directive

open Token (words Unmarked Separators)

/-- The first word is the name, all others are parameters. -/
def ofWords : List String → Directive
  | [] => blank
  | name :: params => ⟨name, [], [], params⟩

theorem run_words (texts : List String) :
    run .name blank (texts.map .literal ++ [.lineEnd]) = some (.nothing, ofWords texts) := by
  cases texts with
  | nil => rfl
  | cons name params => exact run_symbols ⟨name, [], [], params⟩

theorem ofLine_of_unmarked {line : String} (h : Unmarked line.toList) :
    ofLine line = .ok (ofWords ((words line.toList).map String.ofList)) := by
  have hclean : Token.Mode.between.Clean := trivial
  have hs : (Token.ofLine line).map Token.symbol = _ := Token.symbols_scan hclean id h
  have hm : (words line.toList).map (fun word => Symbol.literal (String.ofList word)) =
      ((words line.toList).map String.ofList).map .literal := (List.map_map ..).symm
  rw [ofLine, ofTokens, readFrom_eq_ok, hs, Token.Mode.text, List.nil_append, hm]
  exact ⟨.nothing, run_words _⟩

/-- A line of plain words calls the first of them with the others as parameters, whatever
separates them. -/
theorem ofLine_words {line : String} (h : Unmarked line.toList) :
    ofLine line = .ok (ofWords ((words line.toList).map String.ofList)) ∧
    ∀ front gaps gaps' back, line = front ++ gaps ++ back →
      Separators gaps.toList → Separators gaps'.toList →
        ofLine (front ++ gaps' ++ back) = ofLine line := by
  apply And.intro (ofLine_of_unmarked h)
  intro front gaps gaps' back hline hg hg'
  subst hline
  have hwords {gaps : String} (hg : Separators gaps.toList) : words (front ++ gaps ++ back).toList =
      words front.toList ++ words back.toList := by
    rw [String.toList_append, String.toList_append, hg.words_append]
  have h' : Unmarked (front ++ gaps' ++ back).toList := by
    simp only [String.toList_append, Unmarked, List.forall_mem_append] at h ⊢
    exact ⟨⟨h.1.1, hg'.unmarked⟩, h.2⟩
  rw [ofLine_of_unmarked h, ofLine_of_unmarked h', hwords hg, hwords hg']

theorem ofLine_words_of_scale : Unmarked ",scale  by 2\t".toList ∧
    ofLine ",scale  by 2\t" = .ok ⟨"scale", [], [], ["by", "2"]⟩ ∧
    ofLine ",scale,by 2\t" = .ok ⟨"scale", [], [], ["by", "2"]⟩ := by
  have h : Unmarked ",scale  by 2\t".toList := by decide
  obtain ⟨hline, hgaps⟩ := ofLine_words h
  exact ⟨h, hline, (hgaps ",scale" "  " "," "by 2\t" rfl (by decide) (by decide)).trans hline⟩

end Directive

end DirectiveFlow
