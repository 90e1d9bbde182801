import DirectiveFlow.Proofs.Lexemes

namespace DirectiveFlow

namespace Token

/-- How many quotes are open. -/
def Mode.quotes : Mode → Nat
  | .quoted .. => 1
  | _ => 0

/-- The tokens that a character outside quotes completes, and the mode behind it. -/
def Mode.stepOutside (mode : Mode) (column : Nat) (c : Char) : List Token × Mode :=
  if c = '"' then (mode.pending, .quoted column [])
  else if isSeparator c then (mode.pending, .between)
  else match control? c with
    | some kind => (mode.pending ++ [⟨kind, column⟩], .between)
    | none => ([], mode.extend column c)

/-- The tokens that a character completes if it begins no comment, and the mode behind it. -/
def Mode.step (mode : Mode) (column : Nat) (c : Char) : List Token × Mode :=
  match mode with
  | .quoted start reversed =>
    if c = '"' then (collected start reversed, .between) else ([], .quoted start (c :: reversed))
  | mode => mode.stepOutside column c

def Mode.steps (mode : Mode) (column : Nat) : List Char → List Token × Mode
  | [] => ([], mode)
  | c :: rest =>
    let (completed, next) := mode.step column c
    let (tokens, last) := next.steps (column + 1) rest
    (completed ++ tokens, last)

/-- No `#` stands outside quotes in what is scanned from the mode on. -/
def Mode.Uncommented (mode : Mode) (chars : List Char) : Prop :=
  ∀ i < chars.length, chars[i]? = some '#' → (mode.quotes + (chars.take i).count '"') % 2 ≠ 0

section Steps

variable {mode : Mode} {column : Nat} {c : Char} {front rest : List Char}

theorem Mode.quotes_eq_zero : mode.quotes = 0 ↔ ¬ mode.Quoting := by
  cases mode <;> simp [quotes, Quoting]

theorem scan_of_not_quoting (h : ¬ mode.Quoting) (hc : c ≠ '#') : scan mode column (c :: rest) =
    (mode.stepOutside column c).1 ++ scan (mode.stepOutside column c).2 (column + 1) rest := by
  cases mode with
  | quoted start reversed => exact (h trivial).elim
  | between | word =>
    rw [scan, if_neg hc, Mode.stepOutside]
    · split
      · rfl
      · split
        · rfl
        · cases control? c with
          | some kind => simp only [List.append_assoc, List.singleton_append]
          | none => rfl
    · intro start reversed h
      cases h

theorem scan_cons (h : c = '#' → mode.Quoting) : scan mode column (c :: rest) =
    (mode.step column c).1 ++ scan (mode.step column c).2 (column + 1) rest := by
  cases mode with
  | quoted start reversed =>
    rw [scan, Mode.step]
    split <;> rfl
  | between | word => exact scan_of_not_quoting id h

theorem scan_comment (h : ¬ mode.Quoting) :
    scan mode column ('#' :: rest) = mode.pending ++ [⟨.lineEnd, column⟩] := by
  cases mode with
  | quoted start reversed => exact (h trivial).elim
  | between | word => rfl

theorem scan_separator (h : ¬ mode.Quoting) (hc : isSeparator c) :
    scan mode column (c :: rest) = mode.pending ++ scan .between (column + 1) rest := by
  have hquote : c ≠ '"' := by
    rintro rfl
    cases hc
  have hhash : c ≠ '#' := by
    rintro rfl
    cases hc
  rw [scan_of_not_quoting h hhash, Mode.stepOutside, if_neg hquote, if_pos hc]

theorem Mode.quotes_stepOutside :
    (mode.stepOutside column c).2.quotes = if c = '"' then 1 else 0 := by
  rw [stepOutside]
  split
  · rfl
  · split
    · rfl
    · cases control? c with
      | some kind => rfl
      | none => exact quotes_eq_zero.mpr not_quoting_extend

theorem Mode.quotes_step :
    (mode.step column c).2.quotes = (mode.quotes + if c = '"' then 1 else 0) % 2 := by
  cases mode with
  | quoted start reversed =>
    rw [step]
    by_cases hc : c = '"' <;> simp [hc, quotes]
  | between | word =>
    refine quotes_stepOutside.trans ?_
    by_cases hc : c = '"' <;> simp [hc, quotes]

theorem Mode.Uncommented.head (h : mode.Uncommented (c :: rest)) : c = '#' → mode.Quoting := by
  rintro rfl
  by_contra hq
  apply h 0 (Nat.zero_lt_succ _) rfl
  rw [quotes_eq_zero.mpr hq]
  rfl

theorem Mode.Uncommented.tail (h : mode.Uncommented (c :: rest)) :
    (mode.step column c).2.Uncommented rest := by
  intro i hi hc
  have hrest := h (i + 1) (Nat.succ_lt_succ hi) hc
  rw [List.take_succ_cons, List.count_cons] at hrest
  simp only [beq_iff_eq] at hrest
  rw [quotes_step]
  omega

theorem scan_append (h : mode.Uncommented front) : scan mode column (front ++ rest) =
    (mode.steps column front).1 ++
      scan (mode.steps column front).2 (column + front.length) rest := by
  induction front generalizing mode column with
  | nil => rfl
  | cons c front ih =>
    rw [List.cons_append, scan_cons h.head, ih h.tail, ← List.append_assoc, List.length_cons,
      Nat.add_assoc, Nat.add_comm 1]
    rfl

theorem Mode.quotes_steps :
    (mode.steps column front).2.quotes = (mode.quotes + front.count '"') % 2 := by
  induction front generalizing mode column with
  | nil => cases mode <;> rfl
  | cons c front ih =>
    change ((mode.step column c).2.steps (column + 1) front).2.quotes = _
    rw [ih, quotes_step, List.count_cons]
    simp only [beq_iff_eq]
    omega

end Steps

/-- The token behind `n` more characters. -/
def shift (n : Nat) (t : Token) : Token :=
  { t with column := t.column + n }

def Mode.shift (n : Nat) : Mode → Mode
  | .between => .between
  | .word start reversed => .word (start + n) reversed
  | .quoted start reversed => .quoted (start + n) reversed

section Shift

variable {n column : Nat} {mode : Mode} {c : Char}

theorem collected_shift {start : Nat} {reversed : List Char} :
    collected (start + n) reversed = (collected start reversed).map (Token.shift n) := by
  cases reversed <;> rfl

theorem Mode.pending_shift : (mode.shift n).pending = mode.pending.map (Token.shift n) := by
  cases mode with
  | between => rfl
  | word start reversed => exact collected_shift
  | quoted start reversed => exact collected_shift

theorem Mode.extend_shift :
    (mode.shift n).extend (column + n) c = (mode.extend column c).shift n := by
  cases mode <;> rfl

theorem Mode.stepOutside_shift : (mode.shift n).stepOutside (column + n) c =
    ((mode.stepOutside column c).1.map (Token.shift n), (mode.stepOutside column c).2.shift n) := by
  rw [stepOutside, stepOutside, pending_shift]
  split
  · rfl
  · split
    · rfl
    · cases control? c with
      | some kind => simp only [List.map_append]; rfl
      | none => simp only [extend_shift]; rfl

theorem Mode.step_shift : (mode.shift n).step (column + n) c =
    ((mode.step column c).1.map (Token.shift n), (mode.step column c).2.shift n) := by
  cases mode with
  | quoted start reversed =>
    rw [shift, step, step]
    split
    · rw [collected_shift]
      rfl
    · rfl
  | between | word => exact stepOutside_shift

theorem Mode.quoting_shift : (mode.shift n).Quoting ↔ mode.Quoting := by
  cases mode <;> rfl

theorem scan_shift (n : Nat) (mode : Mode) (column : Nat) (cs : List Char) :
    scan (mode.shift n) (column + n) cs = (scan mode column cs).map (shift n) := by
  have hend (mode : Mode) (column : Nat) : (mode.shift n).pending ++ [⟨.lineEnd, column + n⟩] =
      (mode.pending ++ [(⟨.lineEnd, column⟩ : Token)]).map (shift n) := by
    rw [List.map_append, Mode.pending_shift]
    rfl
  induction cs generalizing mode column with
  | nil => exact hend mode column
  | cons c rest ih =>
    by_cases hc : c = '#' → mode.Quoting
    · rw [scan_cons hc, scan_cons fun h => Mode.quoting_shift.mpr (hc h), Mode.step_shift,
        List.map_append, ← ih, Nat.add_right_comm]
    · -- a comment, which ends both scans
      obtain ⟨rfl, hq⟩ := Classical.not_imp.mp hc
      rw [scan_comment hq, scan_comment (mt Mode.quoting_shift.mp hq)]
      exact hend mode column

end Shift

/-- Every quote is closed, and no `#` stands outside quotes. -/
def Closed (chars : List Char) : Prop :=
  chars.count '"' % 2 = 0 ∧ ∀ i < chars.length, chars[i]? = some '#' → ¬ Outside chars i

instance (chars : List Char) (i : Nat) : Decidable (Outside chars i) :=
  inferInstanceAs (Decidable (_ = 0))

instance (chars : List Char) : Decidable (Closed chars) :=
  inferInstanceAs (Decidable (_ ∧ _))

section Seams

variable {chars : List Char}

theorem Closed.uncommented (h : Closed chars) : Mode.between.Uncommented chars := by
  intro i hi hc
  change ¬ (0 + (chars.take i).count '"') % 2 = 0
  rw [Nat.zero_add]
  exact h.2 i hi hc

/-- Behind a closed front the scan is outside quotes, whatever follows. -/
theorem Closed.scan_append (h : Closed chars) : ∃ tokens next, ¬ next.Quoting ∧
    ∀ rest, scan .between 0 (chars ++ rest) = tokens ++ scan next chars.length rest := by
  have hquotes : (Mode.between.steps 0 chars).2.quotes = 0 := by
    rw [Mode.quotes_steps]
    change (0 + chars.count '"') % 2 = 0
    rw [Nat.zero_add, h.1]
  have hfront (rest : List Char) : scan .between 0 (chars ++ rest) =
      (Mode.between.steps 0 chars).1 ++ scan (Mode.between.steps 0 chars).2 chars.length rest := by
    rw [Token.scan_append h.uncommented, Nat.zero_add]
  exact ⟨_, _, Mode.quotes_eq_zero.mp hquotes, hfront⟩

/-- A line may be cut at a separator behind closed quotes, and a `#` in its place ends it. -/
theorem ofLine_push_append {a : String} (h : Closed a.toList) : ∃ tokens,
    ofLine a = tokens ++ [⟨.lineEnd, a.length⟩] ∧
    (∀ s b, isSeparator s →
      ofLine (a.push s ++ b) = tokens ++ (ofLine b).map (shift (a.length + 1))) ∧
    ∀ b, ofLine (a.push '#' ++ b) = ofLine a := by
  obtain ⟨tokens, next, hq, hfront⟩ := h.scan_append
  have hline (s : Char) (b : String) : (a.push s ++ b).toList = a.toList ++ s :: b.toList := by
    simp
  have hend : ofLine a = (tokens ++ next.pending) ++ [⟨.lineEnd, a.length⟩] := by
    have hnil := hfront []
    rw [List.append_nil] at hnil
    rw [ofLine, hnil, scan, List.append_assoc, String.length_toList]
  have hseam (s : Char) (b : String) (hs : isSeparator s) : ofLine (a.push s ++ b) =
      (tokens ++ next.pending) ++ (ofLine b).map (shift (a.length + 1)) := by
    have hshift := scan_shift (a.length + 1) .between 0 b.toList
    rw [Nat.zero_add] at hshift
    rw [ofLine, hline, hfront, scan_separator hq hs, ← List.append_assoc, String.length_toList]
    exact congrArg _ hshift
  have hcomment (b : String) : ofLine (a.push '#' ++ b) = ofLine a := by
    rw [hend, ofLine, hline, hfront, scan_comment hq, ← List.append_assoc, String.length_toList]
  exact ⟨tokens ++ next.pending, hend, hseam, hcomment⟩

/-- A `#` in quotes ends nothing. -/
theorem ofLine_push_append_of_quoted : Closed "x(\"#,\"y".toList ∧ ∃ tokens,
    ofLine "x(\"#,\"y" = tokens ++ [⟨.lineEnd, 7⟩] ∧
    ofLine "x(\"#,\"y,\"z" = tokens ++ [⟨.literal "z", 8⟩, ⟨.lineEnd, 10⟩] ∧
    ofLine "x(\"#,\"y#\"z" = ofLine "x(\"#,\"y" := by
  have h : Closed "x(\"#,\"y".toList := by decide
  obtain ⟨tokens, hend, hseam, hcomment⟩ := ofLine_push_append h
  exact ⟨h, tokens, hend, hseam ',' "\"z" rfl, hcomment "\"z"⟩

end Seams

end Token

end DirectiveFlow
