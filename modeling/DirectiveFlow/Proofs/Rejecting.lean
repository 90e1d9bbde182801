import Mathlib.Computability.MyhillNerode
import DirectiveFlow.Proofs.Lexemes
import DirectiveFlow.Proofs.Writing

namespace DirectiveFlow

namespace Token

theorem Stops.le_length {chars : List Char} {i : Nat} (h : Stops chars i) : i ≤ chars.length := by
  rcases h with rfl | ⟨hc, -⟩
  · exact Nat.le_refl _
  · exact Nat.le_of_lt (List.getElem?_eq_some_iff.mp hc).1

theorem column_le_length {line : String} : ∀ t ∈ ofLine line, t.column ≤ line.length := by
  have hbetween : Mode.between.At line.toList 0 := ⟨rfl, nofun⟩
  obtain ⟨stop, tokens, hstop, he, hcuts⟩ :=
    splits_scan hbetween trivial (List.drop_zero ..) (Nat.zero_le _)
  change ofLine line = tokens ++ [⟨.lineEnd, stop⟩] at he
  have hle : stop ≤ line.length := String.length_toList ▸ hstop.le_length
  rw [he]
  refine List.forall_mem_append.mpr ⟨fun t ht => ?_, List.forall_mem_singleton.mpr hle⟩
  exact Nat.le_of_lt (Nat.lt_of_lt_of_le (hcuts.column_bounds t ht).2 hle)

end Token

namespace Directive

/-- The symbols begin a sentence. -/
def Begins (w : List Symbol) : Prop :=
  ∃ v, w ++ v ∈ grammar

section Positions

variable {p q : Position} {d e : Directive} {s : Symbol} {w : List Symbol}

/-- What may follow a symbol is what may follow at the next position. -/
theorem leftQuotient_of_advance (h : advance? p d s = some (q, e)) :
    p.ends.leftQuotient [s] = q.ends := by
  ext w
  rw [Language.mem_leftQuotient, List.singleton_append, Position.cons_mem_ends (d := d), h]
  constructor
  · rintro ⟨q', e', he, hw⟩
    cases he
    exact hw
  · exact fun hw => ⟨q, e, rfl, hw⟩

theorem leftQuotient_of_run (h : run p d w = some (q, e)) : p.ends.leftQuotient w = q.ends := by
  induction w generalizing p d with
  | nil =>
    cases h
    rfl
  | cons s w ih =>
    rw [run_cons] at h
    obtain ⟨⟨p', d'⟩, ha, hw⟩ := Option.bind_eq_some_iff.mp h
    rw [← List.singleton_append, Language.leftQuotient_append, leftQuotient_of_advance ha, ih hw]

/-- Which of these can be read tells the positions apart. -/
def probes : List (List Symbol) :=
  [[.openBracket], [.arrow], [.closeBracket], [.lineEnd], [.literal "", .openBracket]]

theorem Position.ends_injective : Function.Injective Position.ends := by
  intro p q h
  have hrun (w : List Symbol) : (run p blank w).isSome = (run q blank w).isSome := by
    rw [Bool.eq_iff_iff]
    simp only [Option.isSome_iff_exists, Prod.exists, exists_run_iff, h]
  have hprobes : probes.map (fun w => (run p blank w).isSome) =
      probes.map fun w => (run q blank w).isSome := List.map_congr_left fun w _ => hrun w
  clear hrun h
  revert hprobes
  -- any two positions differ on one of the probes
  cases p <;> cases q <;> decide

end Positions

section Faults

variable {p q : Position} {d e : Directive} {t : Token} {tokens front back : List Token}
  {line : String} {fault : SyntaxFault}

theorem run_of_error (h : readFrom line p d tokens = .error fault) : ∃ front back e,
    tokens = front ++ fault.found :: back ∧
    run p d (front.map Token.symbol) = some (fault.expected, e) ∧
    advance? fault.expected e fault.found.symbol = none ∧ fault.line = line := by
  induction tokens generalizing p d with
  | nil => cases h
  | cons token rest ih =>
    rw [readFrom] at h
    cases ha : advance? p d token.symbol with
    | none =>
      rw [ha] at h
      cases h
      exact ⟨[], rest, d, rfl, rfl, ha, rfl⟩
    | some next =>
      rw [ha] at h
      obtain ⟨front, back, e, rfl, hrun, hbad, hline⟩ := ih h
      refine ⟨token :: front, back, e, rfl, ?_, hbad, hline⟩
      rw [List.map_cons, run_cons, ha]
      exact hrun

theorem readFrom_of_run (h : run p d (front.map Token.symbol) = some (q, e))
    (ht : advance? q e t.symbol = none) :
    readFrom line p d (front ++ t :: back) = .error ⟨t, q, line⟩ := by
  induction front generalizing p d with
  | nil =>
    cases h
    rw [List.nil_append, readFrom, ht]
  | cons token front ih =>
    rw [List.map_cons, run_cons] at h
    obtain ⟨⟨p', d'⟩, ha, hrun⟩ := Option.bind_eq_some_iff.mp h
    rw [List.cons_append, readFrom, ha]
    exact ih hrun

theorem begins_iff {w : List Symbol} : Begins w ↔ ∃ q e, run .name blank w = some (q, e) :=
  (exists_run_iff (p := .name)).symm

/-- A line is rejected at the first token with which its tokens begin no sentence. The position
that was reached is the one whose ends of sentences are those that may follow the tokens before
it. What stands behind it has no part in the fault. -/
theorem fault_at_first_bad_token (h : ofLine line = .error fault) :
    fault.line = line ∧ ∃ front back, Token.ofLine line = front ++ fault.found :: back ∧
      Begins (front.map Token.symbol) ∧ ¬ Begins ((front ++ [fault.found]).map Token.symbol) ∧
      (∀ p : Position,
        p.ends = grammar.leftQuotient (front.map Token.symbol) ↔ p = fault.expected) ∧
      fault.found.column ≤ line.length ∧
      ∀ line' back', Token.ofLine line' = front ++ fault.found :: back' →
        ofLine line' = .error ⟨fault.found, fault.expected, line'⟩ := by
  obtain ⟨front, back, e, htokens, hrun, hbad, hline⟩ := run_of_error h
  have hbegins : Begins (front.map Token.symbol) := begins_iff.mpr ⟨_, e, hrun⟩
  have hhopeless : ¬ Begins ((front ++ [fault.found]).map Token.symbol) := by
    rw [begins_iff, List.map_append, run_append hrun, List.map_singleton, run_cons, hbad]
    exact fun ⟨q, d, hq⟩ => nomatch hq
  have hreached (p : Position) :
      p.ends = grammar.leftQuotient (front.map Token.symbol) ↔ p = fault.expected := by
    have hends : grammar.leftQuotient (front.map Token.symbol) = fault.expected.ends :=
      leftQuotient_of_run hrun
    rw [hends]
    exact Position.ends_injective.eq_iff
  have hcolumn : fault.found.column ≤ line.length := by
    apply Token.column_le_length
    rw [htokens]
    exact List.mem_append_right _ List.mem_cons_self
  have hsame (line' : String) (back' : List Token)
      (htokens' : Token.ofLine line' = front ++ fault.found :: back') :
      ofLine line' = .error ⟨fault.found, fault.expected, line'⟩ := by
    rw [ofLine, ofTokens, htokens']
    exact readFrom_of_run hrun hbad
  exact ⟨hline, front, back, htokens, hbegins, hhopeless, hreached, hcolumn, hsame⟩

theorem fault_at_first_bad_token_of_two_arrows :
    ofLine "t (a > b > c)" = .error ⟨⟨.arrow, 9⟩, .output, "t (a > b > c)"⟩ ∧
    ∃ front, Begins (front.map Token.symbol) ∧
      ¬ Begins ((front ++ [⟨.arrow, 9⟩]).map Token.symbol) ∧
      ∀ line back, Token.ofLine line = front ++ ⟨.arrow, 9⟩ :: back →
        ofLine line = .error ⟨⟨.arrow, 9⟩, .output, line⟩ := by
  have h : ofLine "t (a > b > c)" = .error ⟨⟨.arrow, 9⟩, .output, "t (a > b > c)"⟩ := by rfl
  obtain ⟨-, front, back, -, hbegins, hbad, -, -, hsame⟩ := fault_at_first_bad_token h
  exact ⟨h, front, hbegins, hbad, hsame⟩

end Faults

end Directive

end DirectiveFlow
