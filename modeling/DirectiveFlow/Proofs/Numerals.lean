import DirectiveFlow.Literal
import DirectiveFlow.Proofs.Outcome
import DirectiveFlow.Value

namespace DirectiveFlow

namespace Integer

/-- One or more ASCII digits. -/
def Digits (chars : List Char) : Prop :=
  chars ≠ [] ∧ ∀ c ∈ chars, c.isDigit

/-- The characters write the integer: digits with at most one sign before them. -/
inductive Numeral : List Char → Int → Prop
  | bare {digits : List Char} (h : Digits digits) :
    Numeral digits (Nat.ofDigitChars 10 digits 0)
  | plus {digits : List Char} (h : Digits digits) :
    Numeral ('+' :: digits) (Nat.ofDigitChars 10 digits 0)
  | minus {digits : List Char} (h : Digits digits) :
    Numeral ('-' :: digits) (-Nat.ofDigitChars 10 digits 0)

/-- A numeral of an unsigned 64-bit integer. It has no minus sign, not even before a zero. -/
structure Unsigned (chars : List Char) (n : Nat) : Prop where
  numeral : Numeral chars n
  not_minus : chars.head? ≠ some '-'
  lt : n < unsignedBound

section Digits

variable {c : Char} {n value limit : Nat} {i : Int} {chars digits : List Char}
  {excess : IntegerFault}

theorem digit?_eq (c : Char) :
    digit? c = if c.isDigit then some (c.toNat - '0'.toNat) else none := by
  have hc : '0' ≤ c ∧ c ≤ '9' ↔ c.isDigit := Char.isDigit_iff_toNat.symm
  rw [digit?, if_congr hc rfl rfl]

theorem le_ofDigitChars (digits : List Char) (value : Nat) :
    value ≤ Nat.ofDigitChars 10 digits value := by
  have hpow : 0 < 10 ^ digits.length := Nat.pow_pos (by decide)
  rw [Nat.ofDigitChars_eq_ofDigitChars_zero]
  exact Nat.le_add_right_of_le (Nat.le_mul_of_pos_left value hpow)

/-- More digits never make a number smaller, so that an excess on the way is one of the whole. -/
theorem readDigits_eq_ok (h : value ≤ limit) : readDigits limit excess value digits = .ok n ↔
    (∀ c ∈ digits, c.isDigit) ∧ Nat.ofDigitChars 10 digits value = n ∧ n ≤ limit := by
  induction digits generalizing value with
  | nil =>
    rw [readDigits, Nat.ofDigitChars_nil, Except.ok.injEq]
    constructor
    · rintro rfl
      exact ⟨nofun, rfl, h⟩
    · exact fun hn => hn.2.1
  | cons c digits ih =>
    rw [readDigits, digit?_eq, List.forall_mem_cons, Nat.ofDigitChars_cons, Nat.mul_comm 10]
    by_cases hc : c.isDigit
    · simp only [hc, if_true, true_and]
      by_cases hle : value * 10 + (c.toNat - '0'.toNat) ≤ limit
      · rw [if_pos hle, ih hle]
      · rw [if_neg hle]
        apply iff_of_false nofun
        rintro ⟨-, rfl, hn⟩
        exact hle (Nat.le_trans (le_ofDigitChars digits _) hn)
    · rw [if_neg hc]
      exact iff_of_false nofun fun hn => hc hn.1.1

theorem readMagnitude_eq_ok : readMagnitude limit excess digits = .ok n ↔
    Digits digits ∧ Nat.ofDigitChars 10 digits 0 = n ∧ n ≤ limit := by
  rw [readMagnitude, Digits]
  cases digits with
  | nil => exact iff_of_false nofun fun hn => hn.1.1 rfl
  | cons c digits =>
    rw [List.isEmpty_cons, if_neg Bool.false_ne_true, readDigits_eq_ok (Nat.zero_le limit)]
    simp only [ne_eq, reduceCtorEq, not_false_eq_true, true_and]

theorem Digits.head (h : Digits (c :: digits)) : c.isDigit :=
  h.2 c List.mem_cons_self

theorem Digits.not_minus (h : Digits digits) : digits.head? ≠ some '-' := by
  intro hm
  cases h.2 _ (List.mem_of_mem_head? hm)

theorem not_numeral_nil : ¬ Numeral [] i := by
  rintro ⟨h⟩
  exact h.1 rfl

theorem numeral_plus :
    Numeral ('+' :: digits) i ↔ Digits digits ∧ Nat.ofDigitChars 10 digits 0 = i := by
  constructor
  · intro h
    cases h with
    | bare h => cases h.head
    | plus h => exact ⟨h, rfl⟩
  · rintro ⟨h, rfl⟩
    exact .plus h

theorem numeral_minus :
    Numeral ('-' :: digits) i ↔ Digits digits ∧ -Nat.ofDigitChars 10 digits 0 = i := by
  constructor
  · intro h
    cases h with
    | bare h => cases h.head
    | minus h => exact ⟨h, rfl⟩
  · rintro ⟨h, rfl⟩
    exact .minus h

theorem numeral_bare (hp : ∀ digits, chars ≠ '+' :: digits)
    (hm : ∀ digits, chars ≠ '-' :: digits) :
    Numeral chars i ↔ Digits chars ∧ Nat.ofDigitChars 10 chars 0 = i := by
  constructor
  · intro h
    cases h with
    | bare h => exact ⟨h, rfl⟩
    | plus => exact (hp _ rfl).elim
    | minus => exact (hm _ rfl).elim
  · rintro ⟨h, rfl⟩
    exact .bare h

end Digits

section Bounds

variable {x : Int64} {i : Int} {n limit : Nat} {digits : List Char} {text : String}

theorem toInt_eq_iff : x.toInt = i ↔ IsSigned i ∧ Int64.ofInt i = x := by
  constructor
  · rintro rfl
    exact ⟨⟨x.le_toInt, x.toInt_lt⟩, x.ofInt_toInt⟩
  · rintro ⟨⟨hlow, hhigh⟩, rfl⟩
    exact Int64.toInt_ofInt_of_le hlow hhigh

theorem exists_toInt_eq : (∃ x : Int64, x.toInt = i) ↔ IsSigned i := by
  simp only [toInt_eq_iff, exists_and_left, exists_eq', and_true]

theorem map_readMagnitude_eq_ok (excess : IntegerFault) {signed : Nat → Int}
    (hs : ∀ n, n ≤ limit ↔ IsSigned (signed n)) :
    (readMagnitude limit excess digits).map (fun n => Int64.ofInt (signed n)) = .ok x ↔
      Digits digits ∧ signed (Nat.ofDigitChars 10 digits 0) = x.toInt := by
  constructor
  · intro h
    obtain ⟨n, hn, hx⟩ := map_eq_ok h
    obtain ⟨hd, rfl, hle⟩ := readMagnitude_eq_ok.mp hn
    exact ⟨hd, (toInt_eq_iff.mpr ⟨(hs _).mp hle, hx⟩).symm⟩
  · rintro ⟨hd, hx⟩
    obtain ⟨hi, hx⟩ := toInt_eq_iff.mp hx.symm
    rw [readMagnitude_eq_ok.mpr ⟨hd, rfl, (hs _).mpr hi⟩, map_ok, hx]

theorem readSigned_eq_ok : readSigned text = .ok x ↔ Numeral text.toList x.toInt := by
  have hplus (n : Nat) : n ≤ signedBound - 1 ↔ IsSigned (n : Int) := by
    simp only [IsSigned, signedBound]
    omega
  have hminus (n : Nat) : n ≤ signedBound ↔ IsSigned (-(n : Int)) := by
    simp only [IsSigned, signedBound]
    omega
  rw [readSigned]
  split
  · rename_i h
    rw [h]
    exact iff_of_false nofun not_numeral_nil
  · rename_i digits h
    rw [h, numeral_plus]
    exact map_readMagnitude_eq_ok .tooLarge hplus
  · rename_i digits h
    rw [h, numeral_minus, ← map_readMagnitude_eq_ok .tooSmall hminus]
    cases readMagnitude signedBound .tooSmall digits <;> exact Iff.rfl
  · rename_i hp hm
    rw [numeral_bare hp hm]
    exact map_readMagnitude_eq_ok .tooLarge hplus

theorem readUnsigned_eq_ok : readUnsigned text = .ok n ↔ Unsigned text.toList n := by
  have hlt : n ≤ unsignedBound - 1 ↔ n < unsignedBound := Nat.le_sub_one_iff_lt (by decide)
  rw [readUnsigned]
  split
  · rename_i h
    rw [h]
    exact iff_of_false nofun fun hn => not_numeral_nil hn.numeral
  · rename_i digits h
    rw [h, readMagnitude_eq_ok, hlt]
    constructor
    · rintro ⟨hd, rfl, hn⟩
      exact ⟨.plus hd, by simp, hn⟩
    · intro hn
      obtain ⟨hd, he⟩ := numeral_plus.mp hn.numeral
      exact ⟨hd, Int.ofNat_inj.mp he, hn.lt⟩
  · rename_i hp
    rw [readMagnitude_eq_ok, hlt]
    constructor
    · rintro ⟨hd, rfl, hn⟩
      exact ⟨.bare hd, hd.not_minus, hn⟩
    · intro hn
      have hm : ∀ digits, text.toList ≠ '-' :: digits := fun _ he => hn.not_minus (he ▸ rfl)
      obtain ⟨hd, he⟩ := (numeral_bare hp hm).mp hn.numeral
      exact ⟨hd, Int.ofNat_inj.mp he, hn.lt⟩

theorem numeral_render (i : Int) : Numeral (render i).toList i := by
  have hdigits (n : Nat) : Digits n.repr.toList := by
    rw [Nat.toList_repr]
    exact ⟨Nat.toDigits_ne_nil, fun c => Nat.isDigit_of_mem_toDigits (by decide) (by decide)⟩
  have hvalue (n : Nat) : Nat.ofDigitChars 10 n.repr.toList 0 = n := by
    rw [Nat.toList_repr, Nat.ofDigitChars_ten_toDigits]
  cases i with
  | ofNat n =>
    have h := Numeral.bare (hdigits n)
    rw [hvalue] at h
    exact h
  | negSucc n =>
    have h := Numeral.minus (hdigits (n + 1))
    rw [hvalue] at h
    rw [render, String.toList_append]
    exact h

end Bounds

end Integer

namespace Value

theorem ofLiteral_int (text : String) : ofLiteral "int" text =
    match Integer.readSigned text with
    | .ok n => .ok (.int n)
    | .error _ => .error (.invalid "int" text) := by
  simp only [ofLiteral, LiteralType.ofName?, LiteralType.read?]
  cases Integer.readSigned text <;> rfl

theorem ofLiteral_int_eq_ok {text : String} {n : Int64} :
    ofLiteral "int" text = .ok (.int n) ↔ Integer.Numeral text.toList n.toInt := by
  rw [ofLiteral_int, ← Integer.readSigned_eq_ok]
  cases Integer.readSigned text <;> simp

theorem ofLiteral_int_eq_error {text : String} :
    ofLiteral "int" text = .error (.invalid "int" text) ↔
      ∀ n : Int64, ¬ Integer.Numeral text.toList n.toInt := by
  simp only [ofLiteral_int, ← Integer.readSigned_eq_ok]
  cases Integer.readSigned text <;> simp

theorem ofLiteral_render {v : Value} (h : v.typeName ∈ ["int", "bool", "string"]) :
    ofLiteral v.typeName v.render = .ok v := by
  cases v with
  | int n => exact ofLiteral_int_eq_ok.mpr (Integer.numeral_render n.toInt)
  | bool b => cases b <;> rfl
  | string s => rfl
  | null => simp [typeName] at h
  | float x => simp [typeName] at h
  | list items => simp [typeName] at h

/-- A text is read as an integer if and only if it is a numeral of a signed 64-bit
integer, and any other text is refused. Integers, truth values and texts are read back
from how they are shown. -/
theorem ofLiteral_exact (text : String) (v : Value) :
    (∀ n : Int, (∃ x : Int64, x.toInt = n ∧ ofLiteral "int" text = .ok (.int x)) ↔
      Integer.Numeral text.toList n ∧ Integer.IsSigned n) ∧
    (ofLiteral "int" text = .error (.invalid "int" text) ↔
      ¬ ∃ n, Integer.Numeral text.toList n ∧ Integer.IsSigned n) ∧
    (v.typeName ∈ ["int", "bool", "string"] → ofLiteral v.typeName v.render = .ok v) := by
  refine ⟨fun n => ?_, ?_, ofLiteral_render⟩
  · simp only [ofLiteral_int_eq_ok]
    constructor
    · rintro ⟨x, rfl, hx⟩
      exact ⟨hx, Integer.exists_toInt_eq.mp ⟨x, rfl⟩⟩
    · rintro ⟨hn, hs⟩
      obtain ⟨x, rfl⟩ := Integer.exists_toInt_eq.mpr hs
      exact ⟨x, rfl, hn⟩
  · rw [ofLiteral_int_eq_error]
    constructor
    · rintro h ⟨n, hn, hs⟩
      obtain ⟨x, rfl⟩ := Integer.exists_toInt_eq.mpr hs
      exact h x hn
    · intro h x hx
      exact h ⟨_, hx, Integer.exists_toInt_eq.mp ⟨x, rfl⟩⟩

theorem ofLiteral_exact_of_smallest :
    (int Int64.minValue).typeName ∈ ["int", "bool", "string"] ∧
    ofLiteral "int" "-9223372036854775808" = .ok (int Int64.minValue) := by
  have h : (int Int64.minValue).typeName ∈ ["int", "bool", "string"] := by decide
  exact ⟨h, (ofLiteral_exact "-9223372036854775808" (int Int64.minValue)).2.2 h⟩

example : ofLiteral "int" "-0042" = .ok (int (-42)) := by rfl

end Value

end DirectiveFlow
