import Mathlib.Data.List.TakeWhile
import DirectiveFlow.Proofs.Scanning

namespace DirectiveFlow

namespace Token

/-- A place behind an even number of quotes. -/
def Outside (chars : List Char) (i : Nat) : Prop :=
  (chars.take i).count '"' % 2 = 0

/-- A character outside quotes that stands for itself. -/
def Plain (chars : List Char) (i : Nat) : Prop :=
  Outside chars i ∧ ∃ c, chars[i]? = some c ∧ c ∉ marks

/-- A separator outside quotes, or a quote, which never stands for itself. -/
def Gap (chars : List Char) (i : Nat) : Prop :=
  ∃ c, chars[i]? = some c ∧ (c = '"' ∨ Outside chars i ∧ isSeparator c)

/-- No plain character stands right before the place. -/
def Starts (chars : List Char) (i : Nat) : Prop :=
  ∀ k, k + 1 = i → ¬ Plain chars k

/-- A `#` outside quotes, or the end of the text. -/
def Stops (chars : List Char) (i : Nat) : Prop :=
  i = chars.length ∨ chars[i]? = some '#' ∧ Outside chars i

section Places

variable {chars : List Char} {i : Nat} {c : Char}

theorem take_succ_of_getElem? (h : chars[i]? = some c) :
    chars.take (i + 1) = chars.take i ++ [c] := by
  rw [List.take_add_one, h, Option.toList_some]

theorem count_take_succ (h : chars[i]? = some c) :
    (chars.take (i + 1)).count '"' = (chars.take i).count '"' + if c = '"' then 1 else 0 := by
  rw [take_succ_of_getElem? h, List.count_append]
  simp [List.count_singleton]

theorem outside_succ_of_quote (h : chars[i]? = some '"') :
    Outside chars (i + 1) ↔ ¬ Outside chars i := by
  rw [Outside, Outside, count_take_succ h, if_pos rfl]
  omega

theorem outside_succ_of_ne (h : chars[i]? = some c) (hc : c ≠ '"') :
    Outside chars (i + 1) ↔ Outside chars i := by
  rw [Outside, Outside, count_take_succ h, if_neg hc, Nat.add_zero]

theorem Plain.outside_succ (h : Plain chars i) : Outside chars (i + 1) := by
  obtain ⟨ho, c, hc, hm⟩ := h
  exact (outside_succ_of_ne hc (not_mem_marks.mp hm).1).mpr ho

theorem not_plain_of_mark (h : chars[i]? = some c) (hc : c ∈ marks) : ¬ Plain chars i := by
  rintro ⟨-, c', hc', hm⟩
  cases h.symm.trans hc'
  exact hm hc

theorem not_plain_of_none (h : chars[i]? = none) : ¬ Plain chars i := by
  rintro ⟨-, c, hc, -⟩
  cases h.symm.trans hc

theorem mem_marks_of_separator (h : isSeparator c) : c ∈ marks :=
  not_not.mp fun hm => (not_mem_marks.mp hm).2.2.1 h

theorem mem_marks_of_control {kind : Symbol} (h : control? c = some kind) : c ∈ marks := by
  by_contra hm
  cases h.symm.trans (not_mem_marks.mp hm).2.2.2

theorem starts_succ (h : ¬ Plain chars i) : Starts chars (i + 1) := by
  intro k hk
  cases hk
  exact h

end Places

/-- A text in quotes gives a control token if it is a control character, and else a literal. -/
def Names (text : List Char) (symbol : Symbol) : Prop :=
  (∃ c, text = [c] ∧ control? c = some symbol) ∨
    (∀ c, text = [c] → control? c = none) ∧ symbol = .literal (String.ofList text)

/-- The characters from `first` on and before `last` are those of the token. -/
inductive Lexeme (chars : List Char) : Token → Nat → Nat → Prop
  | control {i : Nat} {c : Char} {kind : Symbol} : Outside chars i → chars[i]? = some c →
      control? c = some kind → Lexeme chars ⟨kind, i⟩ i (i + 1)
  | word {i j : Nat} : i < j → (∀ k, i ≤ k → k < j → Plain chars k) → Starts chars i →
      ¬ Plain chars j → Lexeme chars ⟨.literal (String.ofList ((chars.take j).drop i)), i⟩ i j
  | quoted {i : Nat} {text : List Char} {symbol : Symbol} : Outside chars i →
      chars[i]? = some '"' → text = (chars.drop (i + 1)).takeWhile (· ≠ '"') → text ≠ [] →
      Names text symbol → Lexeme chars ⟨symbol, i⟩ (i + 1) (i + 1 + text.length)

def Covers (t : Token) (chars : List Char) (k : Nat) : Prop :=
  ∃ first last, Lexeme chars t first last ∧ first ≤ k ∧ k < last

/-- Up to `stop` the line is cut into the lexemes of tokens and the gaps between them. -/
inductive Cuts (chars : List Char) (stop : Nat) : Nat → List Token → Prop
  | stop : Cuts chars stop stop []
  | gap {i : Nat} {ts : List Token} : Gap chars i → Cuts chars stop (i + 1) ts →
      Cuts chars stop i ts
  | lexeme {t : Token} {first last : Nat} {ts : List Token} : Lexeme chars t first last →
      Cuts chars stop last ts → Cuts chars stop t.column (t :: ts)

/-- The tokens of the line from a place on, with the end of the line. -/
def Splits (chars : List Char) (i : Nat) (ts : List Token) : Prop :=
  ∃ stop tokens, Stops chars stop ∧ ts = tokens ++ [⟨.lineEnd, stop⟩] ∧ Cuts chars stop i tokens

section Cutting

variable {chars : List Char} {i column first last : Nat} {t : Token} {ts : List Token}

theorem Splits.stop (h : Stops chars i) : Splits chars i [⟨.lineEnd, i⟩] :=
  ⟨i, [], h, rfl, .stop⟩

theorem Splits.gap (hg : Gap chars i) (h : Splits chars (i + 1) ts) : Splits chars i ts := by
  obtain ⟨stop, tokens, hs, he, hc⟩ := h
  exact ⟨stop, tokens, hs, he, .gap hg hc⟩

theorem Splits.lexeme (hl : Lexeme chars t first last) (h : Splits chars last ts) :
    Splits chars t.column (t :: ts) := by
  obtain ⟨stop, tokens, hs, rfl, hc⟩ := h
  exact ⟨stop, t :: tokens, hs, rfl, .lexeme hl hc⟩

theorem names_symbolOf (text : List Char) : Names text (symbolOf text) := by
  unfold symbolOf
  split
  · rename_i c
    cases hc : control? c with
    | none => exact .inr ⟨fun c' h => by cases h; exact hc, rfl⟩
    | some kind => exact .inl ⟨c, rfl, hc⟩
  · rename_i hn
    exact .inr ⟨fun c h => absurd h (hn c), rfl⟩

theorem symbolOf_eq (text : List Char) (h : ∀ c ∈ text, c ∉ marks) :
    symbolOf text = .literal (String.ofList text) := by
  rcases names_symbolOf text with ⟨c, rfl, hc⟩ | ⟨-, hs⟩
  · cases (not_mem_marks.mp (h c List.mem_cons_self)).2.2.2.symm.trans hc
  · exact hs

end Cutting

/-- Where the pending text of a scan starts. -/
def Mode.start (column : Nat) : Mode → Nat
  | .between => column
  | .word start _ => start
  | .quoted start _ => start

/-- Where a scan that has come to a column stands in the line, and what it holds of it. -/
def Mode.At (chars : List Char) (column : Nat) : Mode → Prop
  | .between => Outside chars column ∧ Starts chars column
  | .word start reversed => start < column ∧ (∀ k, start ≤ k → k < column → Plain chars k) ∧
      Starts chars start ∧ chars.take column = chars.take start ++ reversed.reverse
  | .quoted start reversed => Outside chars start ∧ chars[start]? = some '"' ∧
      chars.take column = chars.take (start + 1) ++ reversed.reverse

section Scan

variable {chars : List Char} {column start : Nat} {reversed : List Char} {mode : Mode} {c : Char}
  {ts : List Token}

theorem Mode.At.outside (hm : mode.At chars column) (hq : ¬ mode.Quoting) :
    Outside chars column := by
  cases mode with
  | between => exact hm.1
  | word start reversed =>
    obtain ⟨hlt, hplain, -, -⟩ := hm
    obtain ⟨k, rfl⟩ := Nat.exists_eq_add_of_lt hlt
    exact (hplain (start + k) (by omega) (by omega)).outside_succ
  | quoted start reversed => exact (hq trivial).elim

theorem Mode.At.not_outside (hm : (Mode.quoted start reversed).At chars column)
    (hq : '"' ∉ reversed) : ¬ Outside chars column := by
  obtain ⟨ho, hstart, hr⟩ := hm
  have hcount : (chars.take column).count '"' = (chars.take (start + 1)).count '"' := by
    rw [hr, List.count_append, List.count_reverse, List.count_eq_zero_of_not_mem hq, Nat.add_zero]
  have hodd : ¬ Outside chars (start + 1) := fun h => (outside_succ_of_quote hstart).mp h ho
  rwa [Outside, hcount]

theorem length_pending {first : Nat} (hle : column ≤ chars.length) (hf : first ≤ chars.length)
    (hr : chars.take column = chars.take first ++ reversed.reverse) :
    column = first + reversed.length := by
  have hl := congrArg List.length hr
  rwa [List.length_append, List.length_reverse, List.length_take_of_le hle,
    List.length_take_of_le hf] at hl

theorem collected_of_ne_nil (h : reversed ≠ []) :
    collected start reversed = [⟨symbolOf reversed.reverse, start⟩] :=
  if_neg (mt List.isEmpty_iff.mp h)

theorem splits_word (hm : (Mode.word start reversed).At chars column)
    (hc : (Mode.word start reversed).Clean) (hle : column ≤ chars.length)
    (hn : ¬ Plain chars column) (h : Splits chars column ts) :
    Splits chars start (collected start reversed ++ ts) := by
  obtain ⟨hlt, hplain, hs, hr⟩ := hm
  have htext : (chars.take column).drop start = reversed.reverse := by
    rw [hr]
    exact List.drop_left' (List.length_take_of_le (by omega))
  have hl := Lexeme.word hlt hplain hs hn
  rw [htext, ← symbolOf_eq _ fun c hm => hc.2 c (List.mem_reverse.mp hm)] at hl
  rw [collected_of_ne_nil hc.1]
  exact h.lexeme hl

/-- A quoted text ends with a quote or with the line. Between two quotes there may be none. -/
theorem splits_quoted (hm : (Mode.quoted start reversed).At chars column)
    (hq : '"' ∉ reversed) (hle : column ≤ chars.length)
    (hn : ∀ c, chars[column]? = some c → c = '"') (h : Splits chars column ts) :
    Splits chars start (collected start reversed ++ ts) := by
  obtain ⟨ho, hstart, hr⟩ := hm
  have hlt : start < chars.length := (List.getElem?_eq_some_iff.mp hstart).1
  have hcolumn := length_pending hle hlt hr
  by_cases he : reversed = []
  · subst he
    subst hcolumn
    exact .gap ⟨'"', hstart, .inl rfl⟩ h
  · have hline : chars = chars.take (start + 1) ++ (reversed.reverse ++ chars.drop column) := by
      rw [← List.append_assoc, ← hr, List.take_append_drop]
    have hdrop : chars.drop (start + 1) = reversed.reverse ++ chars.drop column :=
      (congrArg (List.drop (start + 1)) hline).trans
        (List.drop_left' (List.length_take_of_le hlt))
    have hnext : (chars.drop column).takeWhile (· ≠ '"') = [] := by
      cases hd : chars.drop column with
      | nil => rfl
      | cons c rest =>
        have hc : chars[column]? = some c := by
          rw [← List.head?_drop, hd]
          rfl
        rw [hn c hc]
        rfl
    have htext : reversed.reverse = (chars.drop (start + 1)).takeWhile (· ≠ '"') := by
      rw [hdrop, List.takeWhile_append_of_pos, hnext, List.append_nil]
      intro c hc
      rw [List.mem_reverse] at hc
      exact decide_eq_true (ne_of_mem_of_not_mem hc hq)
    have hl := Lexeme.quoted ho hstart htext (by simpa using he) (names_symbolOf _)
    rw [List.length_reverse, ← hcolumn] at hl
    rw [collected_of_ne_nil he]
    exact h.lexeme hl

theorem splits_pending (hm : mode.At chars column) (hc : mode.Clean) (hq : ¬ mode.Quoting)
    (hle : column ≤ chars.length) (hn : ¬ Plain chars column) (h : Splits chars column ts) :
    Splits chars (mode.start column) (mode.pending ++ ts) := by
  cases mode with
  | between => exact h
  | word start reversed => exact splits_word hm hc hle hn h
  | quoted start reversed => exact (hq trivial).elim

theorem take_succ_of_drop {rest : List Char} (h : chars.drop column = c :: rest) :
    chars[column]? = some c ∧ chars.drop (column + 1) = rest ∧ column + 1 ≤ chars.length ∧
      chars.take (column + 1) = chars.take column ++ [c] := by
  have hc : chars[column]? = some c := by
    rw [← List.head?_drop, h]
    rfl
  refine ⟨hc, ?_, (List.getElem?_eq_some_iff.mp hc).1, take_succ_of_getElem? hc⟩
  rw [← List.drop_drop, h]
  rfl

theorem Mode.not_quoting (hn : ∀ start reversed, mode = .quoted start reversed → False) :
    ¬ mode.Quoting := by
  cases mode with
  | between | word => exact id
  | quoted start reversed => exact (hn start reversed rfl).elim

theorem Mode.At.extend (hm : mode.At chars column) (hq : ¬ mode.Quoting)
    (hp : Plain chars column) (hc : chars[column]? = some c) :
    (mode.extend column c).At chars (column + 1) ∧
      (mode.extend column c).start (column + 1) = mode.start column := by
  have htake := take_succ_of_getElem? hc
  cases mode with
  | between =>
    refine ⟨⟨Nat.lt_succ_self _, fun k hk hk' => ?_, hm.2, htake⟩, rfl⟩
    cases Nat.le_antisymm hk (Nat.le_of_lt_succ hk')
    exact hp
  | word start reversed =>
    obtain ⟨hlt, hplain, hs, hr⟩ := hm
    refine ⟨⟨Nat.lt_succ_of_lt hlt, fun k hk hk' => ?_, hs, ?_⟩, rfl⟩
    · rcases Nat.lt_succ_iff_lt_or_eq.mp hk' with hk' | rfl
      · exact hplain k hk hk'
      · exact hp
    · rw [htake, hr, List.reverse_cons, List.append_assoc]
  | quoted start reversed => exact (hq trivial).elim

theorem splits_scan {rest : List Char} (hm : mode.At chars column) (hc : mode.Clean)
    (hr : chars.drop column = rest) (hle : column ≤ chars.length) :
    Splits chars (mode.start column) (scan mode column rest) := by
  fun_induction scan mode column rest with
  | case1 mode column => -- the end of the line
    have hlength : column = chars.length := Nat.le_antisymm hle (List.drop_eq_nil_iff.mp hr)
    have hnone : chars[column]? = none := List.getElem?_eq_none (by omega)
    have hstop : Splits chars column [⟨.lineEnd, column⟩] := .stop (.inl hlength)
    cases mode with
    | quoted start reversed =>
      exact splits_quoted hm hc hle (fun c h => by cases hnone.symm.trans h) hstop
    | between | word => exact splits_pending hm hc id hle (not_plain_of_none hnone) hstop
  | case2 column rest start reversed ih => -- a closing quote
    obtain ⟨hquote, hrest, hle', -⟩ := take_succ_of_drop hr
    have hout : Outside chars (column + 1) :=
      (outside_succ_of_quote hquote).mpr (hm.not_outside hc)
    have hnext : Starts chars (column + 1) := starts_succ (not_plain_of_mark hquote (by decide))
    apply splits_quoted hm hc hle (fun c h => by cases hquote.symm.trans h; rfl)
    exact .gap ⟨'"', hquote, .inl rfl⟩ (ih ⟨hout, hnext⟩ trivial hrest hle')
  | case3 column c rest start reversed hq ih => -- a character in quotes
    obtain ⟨hchar, hrest, hle', htake⟩ := take_succ_of_drop hr
    obtain ⟨ho, hstart, hr⟩ := hm
    have hnext : (Mode.quoted start (c :: reversed)).At chars (column + 1) := by
      refine ⟨ho, hstart, ?_⟩
      rw [htake, hr, List.reverse_cons, List.append_assoc]
    have hclean : (Mode.quoted start (c :: reversed)).Clean := by
      simpa [Mode.Clean, Ne.symm hq] using hc
    exact ih hnext hclean hrest hle'
  | case4 column rest mode hn ih => -- an opening quote
    obtain ⟨hquote, hrest, hle', -⟩ := take_succ_of_drop hr
    have hq := Mode.not_quoting hn
    apply splits_pending hm hc hq hle (not_plain_of_mark hquote (by decide))
    exact ih ⟨hm.outside hq, hquote, (List.append_nil _).symm⟩ List.not_mem_nil hrest hle'
  | case5 column rest mode hn hq => -- a comment
    obtain ⟨hhash, -⟩ := take_succ_of_drop hr
    have hq := Mode.not_quoting hn
    apply splits_pending hm hc hq hle (not_plain_of_mark hhash (by decide))
    exact .stop (.inr ⟨hhash, hm.outside hq⟩)
  | case6 column c rest mode hn hquote hh hsep ih => -- a separator
    obtain ⟨hchar, hrest, hle', -⟩ := take_succ_of_drop hr
    have hq := Mode.not_quoting hn
    have hplain : ¬ Plain chars column :=
      not_plain_of_mark hchar (mem_marks_of_separator hsep)
    have hout : Outside chars (column + 1) := (outside_succ_of_ne hchar hquote).mpr (hm.outside hq)
    apply splits_pending hm hc hq hle hplain
    exact .gap ⟨c, hchar, .inr ⟨hm.outside hq, hsep⟩⟩
      (ih ⟨hout, starts_succ hplain⟩ trivial hrest hle')
  | case7 column c rest mode hn hquote hh hsep kind hk ih => -- a control character
    obtain ⟨hchar, hrest, hle', -⟩ := take_succ_of_drop hr
    have hq := Mode.not_quoting hn
    have hplain : ¬ Plain chars column :=
      not_plain_of_mark hchar (mem_marks_of_control hk)
    have hout : Outside chars (column + 1) := (outside_succ_of_ne hchar hquote).mpr (hm.outside hq)
    apply splits_pending hm hc hq hle hplain
    exact .lexeme (.control (hm.outside hq) hchar hk)
      (ih ⟨hout, starts_succ hplain⟩ trivial hrest hle')
  | case8 column c rest mode hn hquote hh hsep hk ih => -- any other character
    obtain ⟨hchar, hrest, hle', -⟩ := take_succ_of_drop hr
    have hq := Mode.not_quoting hn
    have hmark : c ∉ marks := not_mem_marks.mpr ⟨hquote, hh, hsep, hk⟩
    obtain ⟨hnext, hstart⟩ := hm.extend hq ⟨hm.outside hq, c, hchar, hmark⟩ hchar
    exact hstart ▸ ih hnext (hc.extend hmark) hrest hle'

end Scan

section Quotes

variable {chars : List Char} {i k : Nat}

theorem exists_char_of_quoted (h : k < ((chars.drop (i + 1)).takeWhile (· ≠ '"')).length) :
    ∃ c, chars[i + 1 + k]? = some c ∧ c ≠ '"' := by
  have hp := List.takeWhile_prefix (l := chars.drop (i + 1)) (fun c => decide (c ≠ '"'))
  have hc := List.mem_takeWhile_imp (List.getElem_mem h)
  refine ⟨_, ?_, of_decide_eq_true hc⟩
  rw [hp.getElem h, ← List.getElem?_drop, List.getElem?_eq_getElem]

theorem not_outside_of_quoted (ho : Outside chars i) (hq : chars[i]? = some '"')
    (h : k ≤ ((chars.drop (i + 1)).takeWhile (· ≠ '"')).length) : ¬ Outside chars (i + 1 + k) := by
  induction k with
  | zero => exact fun hn => (outside_succ_of_quote hq).mp hn ho
  | succ k ih =>
    obtain ⟨c, hc, hne⟩ := exists_char_of_quoted h
    exact mt (outside_succ_of_ne hc hne).mp (ih (Nat.le_of_succ_le h))

end Quotes

section Lexemes

variable {chars : List Char} {i first last first' last' k stop : Nat} {t t' : Token}
  {ts : List Token}

theorem Lexeme.bounds (h : Lexeme chars t first last) : t.column ≤ first ∧ first < last := by
  cases h with
  | control => exact ⟨Nat.le_refl _, Nat.lt_succ_self _⟩
  | word hlt => exact ⟨Nat.le_refl _, hlt⟩
  | quoted _ _ _ hn => exact ⟨Nat.le_succ _, Nat.lt_add_of_pos_right (List.length_pos_iff.mpr hn)⟩

theorem Lexeme.symbol_ne_lineEnd (h : Lexeme chars t first last) : t.symbol ≠ .lineEnd := by
  have hcontrol {c : Char} : control? c ≠ some .lineEnd := by
    unfold control?
    split <;> simp
  cases h with
  | control _ _ hk =>
    rintro rfl
    exact hcontrol hk
  | word => exact nofun
  | quoted _ _ _ _ hs =>
    rintro rfl
    rcases hs with ⟨c, -, hc⟩ | ⟨-, hs⟩
    · exact hcontrol hc
    · cases hs

theorem Lexeme.not_comment (h : Lexeme chars t first last) (hk : t.column ≤ k) (hlt : k < last)
    (hc : chars[k]? = some '#') : ¬ Outside chars k := by
  cases h with
  | control _ hchar hcontrol =>
    cases Nat.le_antisymm hk (Nat.le_of_lt_succ hlt)
    cases hchar.symm.trans hc
    cases hcontrol
  | word _ hplain => exact (not_plain_of_mark hc (by decide) (hplain k hk hlt)).elim
  | quoted ho hquote htext =>
    subst htext
    rcases Nat.eq_or_lt_of_le hk with rfl | hk
    · cases hquote.symm.trans hc
    · obtain ⟨d, rfl⟩ := Nat.exists_eq_add_of_le hk
      exact not_outside_of_quoted ho hquote (Nat.le_of_lt (Nat.lt_of_add_lt_add_left hlt))

theorem Lexeme.first_le (h : Lexeme chars t first last) (hk : t.column ≤ k)
    (hg : ¬ Gap chars k) : first ≤ k := by
  cases h with
  | control | word => exact hk
  | quoted _ hquote =>
    rcases Nat.eq_or_lt_of_le hk with rfl | hk
    · exact (hg ⟨'"', hquote, .inl rfl⟩).elim
    · exact hk

/-- What begins at a place is fixed by the line. -/
theorem Lexeme.unique (h : Lexeme chars t first last) (h' : Lexeme chars t' first' last')
    (ht : t.column = t'.column) : first = first' ∧ last = last' := by
  cases h with
  | control _ hc hk =>
    cases ht
    cases h' with
    | control => exact ⟨rfl, rfl⟩
    | word hlt hplain =>
      exact (not_plain_of_mark hc (mem_marks_of_control hk) (hplain _ (Nat.le_refl _) hlt)).elim
    | quoted _ hquote =>
      cases hc.symm.trans hquote
      cases hk
  | word hlt hplain _ hend =>
    cases ht
    cases h' with
    | control _ hc hk =>
      exact (not_plain_of_mark hc (mem_marks_of_control hk) (hplain _ (Nat.le_refl _) hlt)).elim
    | word hlt' hplain' _ hend' =>
      have hle : last ≤ last' := by
        apply Nat.le_of_not_lt
        exact fun h => hend' (hplain _ (Nat.le_of_lt hlt') h)
      have hge : last' ≤ last := by
        apply Nat.le_of_not_lt
        exact fun h => hend (hplain' _ (Nat.le_of_lt hlt) h)
      exact ⟨rfl, Nat.le_antisymm hle hge⟩
    | quoted _ hquote =>
      exact (not_plain_of_mark hquote (by decide) (hplain _ (Nat.le_refl _) hlt)).elim
  | quoted _ hquote htext =>
    cases ht
    cases h' with
    | control _ hc hk =>
      cases hquote.symm.trans hc
      cases hk
    | word hlt hplain =>
      exact (not_plain_of_mark hquote (by decide) (hplain _ (Nat.le_refl _) hlt)).elim
    | quoted _ _ htext' => exact ⟨rfl, by rw [htext, htext']⟩

theorem Cuts.le (h : Cuts chars stop i ts) : i ≤ stop := by
  induction h with
  | stop => exact Nat.le_refl _
  | gap _ _ ih => exact Nat.le_of_succ_le ih
  | lexeme hl _ ih => exact Nat.le_trans (Nat.le_trans hl.bounds.1 (Nat.le_of_lt hl.bounds.2)) ih

theorem Cuts.column_bounds (h : Cuts chars stop i ts) :
    ∀ t ∈ ts, i ≤ t.column ∧ t.column < stop := by
  induction h with
  | stop => exact nofun
  | gap _ _ ih => exact fun t ht => ⟨Nat.le_of_succ_le (ih t ht).1, (ih t ht).2⟩
  | lexeme hl hc ih =>
    have hlt := Nat.lt_of_le_of_lt hl.bounds.1 hl.bounds.2
    intro t ht
    rcases List.mem_cons.mp ht with rfl | ht
    · exact ⟨Nat.le_refl _, Nat.lt_of_lt_of_le hlt hc.le⟩
    · exact ⟨Nat.le_trans (Nat.le_of_lt hlt) (ih t ht).1, (ih t ht).2⟩

theorem Cuts.sorted (h : Cuts chars stop i ts) : ts.Pairwise (·.column < ·.column) := by
  induction h with
  | stop => exact .nil
  | gap _ _ ih => exact ih
  | lexeme hl hc ih =>
    apply List.Pairwise.cons _ ih
    intro t ht
    exact Nat.lt_of_lt_of_le (Nat.lt_of_le_of_lt hl.bounds.1 hl.bounds.2) (hc.column_bounds t ht).1

theorem Cuts.exists_lexeme (h : Cuts chars stop i ts) :
    ∀ t ∈ ts, ∃ first last, Lexeme chars t first last := by
  induction h with
  | stop => exact nofun
  | gap _ _ ih => exact ih
  | lexeme hl _ ih => exact List.forall_mem_cons.mpr ⟨⟨_, _, hl⟩, ih⟩

theorem Cuts.not_comment (h : Cuts chars stop i ts) (hk : i ≤ k) (hlt : k < stop)
    (hc : chars[k]? = some '#') : ¬ Outside chars k := by
  induction h with
  | stop => omega
  | gap hg _ ih =>
    rcases Nat.eq_or_lt_of_le hk with rfl | hk
    · obtain ⟨c, hchar, hgap⟩ := hg
      cases hchar.symm.trans hc
      rcases hgap with hgap | ⟨-, hgap⟩
      · cases hgap
      · cases hgap
    · exact ih hk
  | @lexeme t first last ts hl _ ih =>
    by_cases hlast : k < last
    · exact hl.not_comment hk hlast hc
    · exact ih (Nat.le_of_not_lt hlast)

/-- Every character that is no gap is in the lexeme of one token and no other. -/
theorem Cuts.covers (h : Cuts chars stop i ts) (hk : i ≤ k) (hlt : k < stop)
    (hg : ¬ Gap chars k) : ∃! t, t ∈ ts ∧ t.Covers chars k := by
  induction h with
  | stop => omega
  | gap hgap _ ih =>
    rcases Nat.eq_or_lt_of_le hk with rfl | hk
    · exact (hg hgap).elim
    · exact ih hk
  | @lexeme t first last ts hl hc ih =>
    by_cases hlast : k < last
    · refine ⟨t, ⟨List.mem_cons_self, first, last, hl, hl.first_le hk hg, hlast⟩, ?_⟩
      rintro t' ⟨ht', first', last', hl', hfirst', -⟩
      rcases List.mem_cons.mp ht' with rfl | ht'
      · rfl
      · -- Later tokens stand behind this one.
        have := (hc.column_bounds t' ht').1
        have := hl'.bounds.1
        omega
    · obtain ⟨t', ⟨ht', hcov⟩, huniq⟩ := ih (Nat.le_of_not_lt hlast)
      refine ⟨t', ⟨List.mem_cons_of_mem _ ht', hcov⟩, ?_⟩
      rintro other ⟨ho, hcov'⟩
      rcases List.mem_cons.mp ho with rfl | ho
      · obtain ⟨first', last', hl', -, hlt'⟩ := hcov'
        cases (hl.unique hl' rfl).2
        exact (hlast hlt').elim
      · exact huniq other ⟨ho, hcov'⟩

end Lexemes

/-- Where the first `#` outside quotes stands, or the end of the text if there is none. -/
def Ends (chars : List Char) (i : Nat) : Prop :=
  Stops chars i ∧ ∀ k < i, chars[k]? = some '#' → ¬ Outside chars k

/-- A line is cut into the lexemes of its tokens and the gaps between them, up to
where it ends. -/
theorem ofLine_lexemes (line : String) : ∃ stop tokens,
    ofLine line = tokens ++ [⟨.lineEnd, stop⟩] ∧ Ends line.toList stop ∧
    (ofLine line).Pairwise (·.column < ·.column) ∧
    (∀ t ∈ tokens, t.symbol ≠ .lineEnd ∧ ∃ first last, Lexeme line.toList t first last) ∧
    (∀ k < stop, ¬ Gap line.toList k → ∃! t, t ∈ tokens ∧ t.Covers line.toList k) ∧
    ∀ t ∈ tokens, ∀ text, t.symbol = .literal text → Quotable text := by
  have hbetween : Mode.between.At line.toList 0 := ⟨rfl, nofun⟩
  obtain ⟨stop, tokens, hstop, he, hcuts⟩ :=
    splits_scan hbetween trivial (List.drop_zero ..) (Nat.zero_le _)
  change ofLine line = tokens ++ [⟨.lineEnd, stop⟩] at he
  refine ⟨stop, tokens, he, ⟨hstop, ?_⟩, ?_, ?_, ?_, ?_⟩
  · exact fun k hk => hcuts.not_comment (Nat.zero_le k) hk
  · rw [he]
    refine List.pairwise_append.mpr ⟨hcuts.sorted, List.pairwise_singleton _ _, fun t ht => ?_⟩
    exact List.forall_mem_singleton.mpr (hcuts.column_bounds t ht).2
  · intro t ht
    obtain ⟨first, last, hl⟩ := hcuts.exists_lexeme t ht
    exact ⟨hl.symbol_ne_lineEnd, first, last, hl⟩
  · exact fun k hk => hcuts.covers (Nat.zero_le k) hk
  · intro t ht text hs
    have hmem : t ∈ ofLine line := he ▸ List.mem_append_left _ ht
    have hclean : Mode.between.Clean := trivial
    rcases allowed_scan hclean t hmem text hs with hbare | ⟨hquotable, -⟩
    · exact hbare.quotable
    · exact hquotable

example : ofLine "glue\"a b\"(\">\" # \"more\"" = [⟨.literal "glue", 0⟩, ⟨.literal "a b", 4⟩,
    ⟨.openBracket, 9⟩, ⟨.arrow, 10⟩, ⟨.lineEnd, 14⟩] := by decide

end Token

end DirectiveFlow
