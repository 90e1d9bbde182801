import Mathlib.Computability.Language
import Mathlib.Data.List.TakeWhile
import DirectiveFlow.Directive
import DirectiveFlow.Proofs.Scanning

open scoped Computability

namespace DirectiveFlow

namespace Directive

/-- One literal, whatever its text. -/
def literal : Language Symbol :=
  {w | ∃ text, w = [.literal text]}

/-- The sentences: an empty line, or a name, brackets that may be left out, and parameters. -/
def grammar : Language Symbol :=
  {[.lineEnd]} +
    literal * (1 + {[.openBracket]} * literal∗ * (1 + {[.arrow]} * literal∗) * {[.closeBracket]}) *
      literal∗ * {[.lineEnd]}

/-- The ends of sentences that may follow at a position. -/
def Position.ends : Position → Language Symbol
  | .name => grammar
  | .afterName =>
    (1 + {[.openBracket]} * literal∗ * (1 + {[.arrow]} * literal∗) * {[.closeBracket]}) *
      literal∗ * {[.lineEnd]}
  | .input => literal∗ * (1 + {[.arrow]} * literal∗) * {[.closeBracket]} * literal∗ * {[.lineEnd]}
  | .output => literal∗ * {[.closeBracket]} * literal∗ * {[.lineEnd]}
  | .param => literal∗ * {[.lineEnd]}
  | .nothing => 1

section Ends

variable {s t : Symbol} {w : List Symbol} {l : Language Symbol}

theorem cons_mem_singleton_mul : s :: w ∈ ({[t]} : Language Symbol) * l ↔ s = t ∧ w ∈ l := by
  rw [Language.mem_mul]
  constructor
  · rintro ⟨u, rfl, v, hv, he⟩
    obtain ⟨rfl, rfl⟩ := List.cons.inj he
    exact ⟨rfl, hv⟩
  · rintro ⟨rfl, hw⟩
    exact ⟨[s], rfl, w, hw, rfl⟩

theorem cons_mem_literal_mul :
    s :: w ∈ literal * l ↔ (∃ text, s = .literal text) ∧ w ∈ l := by
  rw [Language.mem_mul]
  constructor
  · rintro ⟨u, ⟨text, rfl⟩, v, hv, he⟩
    obtain ⟨rfl, rfl⟩ := List.cons.inj he
    exact ⟨⟨text, rfl⟩, hv⟩
  · rintro ⟨⟨text, rfl⟩, hw⟩
    exact ⟨[.literal text], ⟨text, rfl⟩, w, hw, rfl⟩

theorem literals_mul (l : Language Symbol) : literal∗ * l = l + literal * (literal∗ * l) := by
  conv_lhs => rw [← Language.one_add_self_mul_kstar_eq_kstar, add_mul, one_mul, mul_assoc]

namespace Position

theorem ends_name : name.ends = {[.lineEnd]} * nothing.ends + literal * afterName.ends := by
  simp only [ends, grammar, mul_one, mul_assoc]

theorem ends_afterName : afterName.ends = param.ends + {[.openBracket]} * input.ends := by
  simp only [ends, add_mul, one_mul, mul_assoc]

theorem ends_input : input.ends =
    {[.closeBracket]} * param.ends + {[.arrow]} * output.ends + literal * input.ends := by
  simp only [ends, add_mul, one_mul, mul_assoc]
  exact literals_mul _

theorem ends_output : output.ends = {[.closeBracket]} * param.ends + literal * output.ends := by
  simp only [ends, mul_assoc]
  exact literals_mul _

theorem ends_param : param.ends = {[.lineEnd]} * nothing.ends + literal * param.ends := by
  simp only [ends, mul_one]
  exact literals_mul _

/-- Each position takes exactly the symbols with which an end of a sentence may begin there. -/
theorem cons_mem_ends {p : Position} {d : Directive} :
    s :: w ∈ p.ends ↔ ∃ q d', advance? p d s = some (q, d') ∧ w ∈ q.ends := by
  cases p with
  | name =>
    rw [ends_name, Language.mem_add, cons_mem_singleton_mul, cons_mem_literal_mul]
    cases s <;> simp [advance?]
  | afterName =>
    rw [ends_afterName, ends_param, Language.mem_add, Language.mem_add, cons_mem_singleton_mul,
      cons_mem_literal_mul, cons_mem_singleton_mul]
    cases s <;> simp [advance?]
  | input =>
    rw [ends_input, Language.mem_add, Language.mem_add, cons_mem_singleton_mul,
      cons_mem_singleton_mul, cons_mem_literal_mul]
    cases s <;> simp [advance?]
  | output =>
    rw [ends_output, Language.mem_add, cons_mem_singleton_mul, cons_mem_literal_mul]
    cases s <;> simp [advance?]
  | param =>
    rw [ends_param, Language.mem_add, cons_mem_singleton_mul, cons_mem_literal_mul]
    cases s <;> simp [advance?]
  | nothing => exact iff_of_false nofun (by simp [advance?])

theorem exists_mem_ends (p : Position) : ∃ w, w ∈ p.ends := by
  have hparam : [.lineEnd] ∈ param.ends := by
    rw [ends_param]
    exact .inl (cons_mem_singleton_mul.mpr ⟨rfl, rfl⟩)
  have hclose : .closeBracket :: [.lineEnd] ∈ output.ends := by
    rw [ends_output]
    exact .inl (cons_mem_singleton_mul.mpr ⟨rfl, hparam⟩)
  cases p with
  | name => exact ⟨[.lineEnd], .inl rfl⟩
  | afterName => exact ⟨_, by rw [ends_afterName]; exact .inl hparam⟩
  | input =>
    refine ⟨.closeBracket :: [.lineEnd], ?_⟩
    rw [ends_input]
    exact .inl (.inl (cons_mem_singleton_mul.mpr ⟨rfl, hparam⟩))
  | output => exact ⟨_, hclose⟩
  | param => exact ⟨_, hparam⟩
  | nothing => exact ⟨[], rfl⟩

end Position

end Ends

/-- Reads symbols one after another, as far as each is expected where it stands. -/
def run (p : Position) (d : Directive) (w : List Symbol) : Option (Position × Directive) :=
  w.foldlM (fun (p, d) s => advance? p d s) (p, d)

section Run

variable {p q : Position} {d d' : Directive} {s : Symbol} {w : List Symbol}

theorem run_cons : run p d (s :: w) = (advance? p d s).bind fun (p, d) => run p d w :=
  List.foldlM_cons

theorem readFrom_eq_ok {line : String} {tokens : List Token} :
    readFrom line p d tokens = .ok d' ↔ ∃ q, run p d (tokens.map Token.symbol) = some (q, d') := by
  induction tokens generalizing p d with
  | nil => simp [readFrom, run]
  | cons token tokens ih =>
    rw [readFrom, List.map_cons, run_cons]
    cases advance? p d token.symbol with
    | none => simp
    | some next => exact ih

theorem exists_run_iff : (∃ q d', run p d w = some (q, d')) ↔ ∃ v, w ++ v ∈ p.ends := by
  induction w generalizing p d with
  | nil => exact iff_of_true ⟨p, d, rfl⟩ p.exists_mem_ends
  | cons s w ih =>
    simp only [List.cons_append, Position.cons_mem_ends (d := d), run_cons]
    cases advance? p d s with
    | none => simp
    | some next =>
      obtain ⟨p', e⟩ := next
      simpa using ih

end Run

/-- The texts of the literals among symbols. -/
def texts (w : List Symbol) : List String :=
  w.filterMap fun
    | .literal text => some text
    | _ => none

/-- The symbols from the opening bracket to the closing one. -/
def brackets (w : List Symbol) : List Symbol :=
  (w.dropWhile (· ≠ .openBracket)).takeWhile (· ≠ .closeBracket)

def inputTexts (w : List Symbol) : List String :=
  texts ((brackets w).takeWhile (· ≠ .arrow))

def outputTexts (w : List Symbol) : List String :=
  texts ((brackets w).dropWhile (· ≠ .arrow))

/-- The first literal is the name; those in brackets are inputs up to the arrow and outputs
behind it; all others are parameters. -/
def spelled (w : List Symbol) : Directive where
  name := (texts w).head?.getD ""
  inputs := inputTexts w
  outputs := outputTexts w
  params := (texts w).drop (1 + (inputTexts w).length + (outputTexts w).length)

section Spelled

variable {w : List Symbol} {name : String}

theorem texts_append (v w : List Symbol) : texts (v ++ w) = texts v ++ texts w :=
  List.filterMap_append

theorem drop_texts {inputs outputs params : List String}
    (h : texts w = name :: (inputs ++ outputs ++ params)) :
    (texts w).drop (1 + inputs.length + outputs.length) = params := by
  rw [h, Nat.add_assoc, Nat.add_comm, ← List.length_append]
  exact List.drop_left

theorem brackets_eq_nil (h : .openBracket ∉ w) : brackets w = [] := by
  have hd : w.dropWhile (· ≠ .openBracket) = [] := by
    apply List.dropWhile_eq_nil_iff.mpr
    intro s hs
    apply decide_eq_true
    rintro rfl
    exact h hs
  unfold brackets
  rw [hd]
  rfl

theorem spelled_plain (h : .openBracket ∉ w) :
    spelled (.literal name :: w) = ⟨name, [], [], texts w⟩ := by
  have hb : brackets (.literal name :: w) = [] := brackets_eq_nil (by simpa using h)
  unfold spelled inputTexts outputTexts
  rw [hb]
  rfl

theorem spelled_brackets : spelled (.literal name :: .openBracket :: w) =
    ⟨name, texts ((w.takeWhile (· ≠ .closeBracket)).takeWhile (· ≠ .arrow)),
      texts ((w.takeWhile (· ≠ .closeBracket)).dropWhile (· ≠ .arrow)),
      texts (w.dropWhile (· ≠ .closeBracket))⟩ := by
  have hw : texts (.literal name :: .openBracket :: w) = name :: (
      texts ((w.takeWhile (· ≠ .closeBracket)).takeWhile (· ≠ .arrow)) ++
      texts ((w.takeWhile (· ≠ .closeBracket)).dropWhile (· ≠ .arrow)) ++
      texts (w.dropWhile (· ≠ .closeBracket))) := by
    rw [← texts_append, ← texts_append, List.takeWhile_append_dropWhile,
      List.takeWhile_append_dropWhile]
    rfl
  exact congrArg (Directive.mk name _ _) (drop_texts hw)

end Spelled

section Fields

variable {q : Position} {d d' : Directive} {w : List Symbol}

theorem run_nothing (h : run .nothing d w = some (q, d')) : w = [] ∧ d' = d := by
  cases w with
  | nil =>
    cases h
    exact ⟨rfl, rfl⟩
  | cons s w =>
    rw [run_cons] at h
    cases h

theorem run_param (h : run .param d w = some (q, d')) :
    .openBracket ∉ w ∧ d' = { d with params := d.params ++ texts w } := by
  induction w generalizing d with
  | nil =>
    cases h
    exact ⟨nofun, by simp [texts]⟩
  | cons s w ih =>
    rw [run_cons] at h
    cases s with
    | literal text =>
      obtain ⟨hw, rfl⟩ := ih h
      exact ⟨by simpa using hw, by simp [texts]⟩
    | lineEnd =>
      obtain ⟨rfl, rfl⟩ := run_nothing h
      exact ⟨by simp, by simp [texts]⟩
    | openBracket | closeBracket | arrow => cases h

theorem run_output (h : run .output d w = some (q, d')) : d' = { d with
    outputs := d.outputs ++ texts (w.takeWhile (· ≠ .closeBracket))
    params := d.params ++ texts (w.dropWhile (· ≠ .closeBracket)) } := by
  induction w generalizing d with
  | nil =>
    cases h
    simp [texts]
  | cons s w ih =>
    rw [run_cons] at h
    cases s with
    | literal text =>
      rw [ih h]
      simp [texts]
    | closeBracket =>
      rw [(run_param h).2]
      simp [texts]
    | openBracket | arrow | lineEnd => cases h

theorem run_input (h : run .input d w = some (q, d')) : d' = { d with
    inputs := d.inputs ++ texts ((w.takeWhile (· ≠ .closeBracket)).takeWhile (· ≠ .arrow))
    outputs := d.outputs ++ texts ((w.takeWhile (· ≠ .closeBracket)).dropWhile (· ≠ .arrow))
    params := d.params ++ texts (w.dropWhile (· ≠ .closeBracket)) } := by
  induction w generalizing d with
  | nil =>
    cases h
    simp [texts]
  | cons s w ih =>
    rw [run_cons] at h
    cases s with
    | literal text =>
      rw [ih h]
      simp [texts]
    | closeBracket =>
      rw [(run_param h).2]
      simp [texts]
    | arrow =>
      rw [run_output h]
      simp [texts]
    | openBracket | lineEnd => cases h

theorem run_name (h : run .name blank w = some (q, d')) : d' = spelled w := by
  cases w with
  | nil =>
    cases h
    rfl
  | cons s w =>
    rw [run_cons] at h
    cases s with
    | lineEnd =>
      obtain ⟨rfl, rfl⟩ := run_nothing h
      rfl
    | openBracket | closeBracket | arrow => cases h
    | literal name =>
      change run .afterName ⟨name, [], [], []⟩ w = some (q, d') at h
      cases w with
      | nil =>
        cases h
        rfl
      | cons s w =>
        rw [run_cons] at h
        cases s with
        | lineEnd =>
          obtain ⟨rfl, rfl⟩ := run_nothing h
          rfl
        | closeBracket | arrow => cases h
        | literal text =>
          obtain ⟨hw, rfl⟩ := run_param h
          rw [spelled_plain (by simpa using hw)]
          rfl
        | openBracket =>
          rw [run_input h, spelled_brackets]
          rfl

end Fields

theorem Position.eq_nil_of_lineEnd {p : Position} {w v : List Symbol} (h : w ++ v ∈ p.ends)
    (he : .lineEnd ∈ w) : v = [] := by
  induction w generalizing p with
  | nil => cases he
  | cons s w ih =>
    rw [List.cons_append, cons_mem_ends (d := blank)] at h
    obtain ⟨q, d, ha, hw⟩ := h
    rcases List.mem_cons.mp he with rfl | he
    · have hq : q = .nothing := by
        cases p with
        | name | afterName | param => cases ha; rfl
        | input | output | nothing => cases ha
      subst hq
      exact (List.append_eq_nil_iff.mp hw).2
    · exact ih hw he

theorem ofTokens_eq_ok {tokens : List Token} {line : String} {d : Directive} :
    ofTokens tokens line = .ok d ↔
      (∃ rest, tokens.map Token.symbol ++ rest ∈ grammar) ∧
        d = spelled (tokens.map Token.symbol) := by
  have hg : (∃ q d', run .name blank (tokens.map Token.symbol) = some (q, d')) ↔
      ∃ rest, tokens.map Token.symbol ++ rest ∈ grammar := exists_run_iff
  rw [ofTokens, readFrom_eq_ok, ← hg]
  constructor
  · rintro ⟨q, h⟩
    exact ⟨⟨q, d, h⟩, run_name h⟩
  · rintro ⟨⟨q, d', h⟩, rfl⟩
    exact ⟨q, run_name h ▸ h⟩

/-- Tokens are read exactly if they begin a sentence, which may stop early, and a line is read
exactly if it is a sentence. What is read is what the symbols spell. -/
theorem reads_iff_grammar (tokens : List Token) (line : String) (d : Directive) :
    (ofTokens tokens line = .ok d ↔
      (∃ rest, tokens.map Token.symbol ++ rest ∈ grammar) ∧
        d = spelled (tokens.map Token.symbol)) ∧
    (ofLine line = .ok d ↔
      (Token.ofLine line).map Token.symbol ∈ grammar ∧
        d = spelled ((Token.ofLine line).map Token.symbol)) := by
  refine ⟨ofTokens_eq_ok, ofTokens_eq_ok.trans (and_congr_left' ?_)⟩
  constructor
  · rintro ⟨rest, h⟩
    have hn : rest = [] := Position.eq_nil_of_lineEnd (p := .name) h Token.lineEnd_mem_scan
    rwa [hn, List.append_nil] at h
  · intro h
    exact ⟨[], (List.append_nil _).symm ▸ h⟩

end Directive

end DirectiveFlow
