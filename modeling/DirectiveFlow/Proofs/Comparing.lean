import Mathlib.Algebra.Order.Ring.Int
import Mathlib.Data.Prod.Lex
import DirectiveFlow.Standard

namespace DirectiveFlow

open Float.Model (UnpackedFloat)

/-- Where a float stands among the others: its sign, then its exponent and mantissa, both turned
round below zero. The two zeros stand at one place. -/
def standing : UnpackedFloat → ℤ ×ₗ ℤ ×ₗ ℤ
  | .infinity .negative => toLex (-2, toLex (0, 0))
  | .finite .negative m e _ => toLex (-1, toLex (-e, -m))
  | .notANumber => toLex (0, toLex (0, 0))
  | .zero _ => toLex (0, toLex (0, 0))
  | .finite .positive m e _ => toLex (1, toLex (e, m))
  | .infinity .positive => toLex (2, toLex (0, 0))

theorem isLE_then {a b : ℤ} {c d : ℕ} :
    ((compare a b).then (compare c d)).isLE ↔ a < b ∨ a = b ∧ c ≤ d := by
  rcases lt_trichotomy a b with h | rfl | h
  · simp [Int.compare_eq_lt.mpr h, h]
  · simp [Nat.isLE_compare]
  · simp [Int.compare_eq_gt.mpr h, h.not_gt, h.ne']

theorem isGE_then {a b : ℤ} {c d : ℕ} :
    ((compare a b).then (compare c d)).isGE ↔ b < a ∨ a = b ∧ d ≤ c := by
  rcases lt_trichotomy a b with h | rfl | h
  · simp [Int.compare_eq_lt.mpr h, h.not_gt, h.ne]
  · simp [Nat.isGE_compare]
  · simp [Int.compare_eq_gt.mpr h, h]

/-- Floats compare as they stand, unless one of them is a NaN. -/
theorem le_iff_standing {a b : UnpackedFloat} :
    a.le b ↔ a.isNaN = false ∧ b.isNaN = false ∧ standing a ≤ standing b := by
  -- one case for each pair of kinds and signs, as the comparison is defined
  rcases a with (_ | _) | _ | (_ | _) | ⟨_ | _, m, e, _⟩ <;>
  rcases b with (_ | _) | _ | (_ | _) | ⟨_ | _, m', e', _⟩ <;>
  dsimp only [UnpackedFloat.le, UnpackedFloat.compare, UnpackedFloat.isNaN, standing] <;>
  simp [Prod.Lex.toLex_le_toLex, isLE_then, isGE_then]
  all_goals decide

namespace Value

def isNumber (v : Value) : Bool :=
  v.float?.isSome

/-- A number that compares with numbers: any but a NaN. -/
def comparable (v : Value) : Bool :=
  v.float?.any fun x => !x.isNaN

/-- Two numbers compared as floats. A NaN is not at most anything, nor is anything at most it. -/
def AtMost (a b : Value) : Prop :=
  ∃ x y, a.float? = some x ∧ b.float? = some y ∧ x ≤ y

variable {a b c : Value}

theorem atMost_iff {x y : Float} (ha : a.float? = some x) (hb : b.float? = some y) :
    a.AtMost b ↔ a.comparable ∧ b.comparable ∧
      standing x.toModel.unpack ≤ standing y.toModel.unpack := by
  have hle : a.AtMost b ↔ x.toModel.unpack.le y.toModel.unpack := by
    constructor
    · rintro ⟨x', y', hx, hy, h⟩
      cases ha.symm.trans hx
      cases hb.symm.trans hy
      exact of_decide_eq_true h
    · intro h
      exact ⟨x, y, ha, hb, decide_eq_true h⟩
  rw [hle, le_iff_standing, comparable, comparable, ha, hb]
  simp [Float.isNaN, Float.Model.isNaN]

theorem exists_float_of_comparable (h : a.comparable) : ∃ x, a.float? = some x := by
  cases hx : a.float? with
  | none => simp [comparable, hx] at h
  | some x => exact ⟨x, rfl⟩

theorem AtMost.comparable (h : a.AtMost b) : a.comparable ∧ b.comparable := by
  have ⟨x, y, hx, hy, _⟩ := h
  obtain ⟨ha, hb, -⟩ := (atMost_iff hx hy).mp h
  exact ⟨ha, hb⟩

theorem AtMost.trans (h : a.AtMost b) (h' : b.AtMost c) : a.AtMost c := by
  have ⟨x, y, hx, hy, _⟩ := h
  have ⟨y', z, _, hz, _⟩ := h'
  obtain ⟨ha, -, hle⟩ := (atMost_iff hx hy).mp h
  obtain ⟨-, hc, hle'⟩ := (atMost_iff hy hz).mp h'
  exact (atMost_iff hx hz).mpr ⟨ha, hc, hle.trans hle'⟩

theorem atMost_total (ha : a.comparable) (hb : b.comparable) : a.AtMost b ∨ b.AtMost a := by
  obtain ⟨x, hx⟩ := exists_float_of_comparable ha
  obtain ⟨y, hy⟩ := exists_float_of_comparable hb
  rw [atMost_iff hx hy, atMost_iff hy hx]
  rcases le_total (standing x.toModel.unpack) (standing y.toModel.unpack) with h | h
  · exact .inl ⟨ha, hb, h⟩
  · exact .inr ⟨hb, ha, h⟩

theorem atMost_refl (ha : a.comparable) : a.AtMost a :=
  (atMost_total ha ha).elim id id

end Value

namespace Standard

variable {a b : Value}

theorem larger_of_atMost (h : b.AtMost a) : larger a b = .ok a := by
  obtain ⟨y, x, hb, ha, hle⟩ := h
  simp only [larger, number, ha, hb]
  exact congrArg Except.ok (if_pos hle)

theorem larger_of_not_atMost (ha : a.isNumber) (hb : b.isNumber) (h : ¬ b.AtMost a) :
    larger a b = .ok b := by
  obtain ⟨x, ha⟩ := Option.isSome_iff_exists.mp ha
  obtain ⟨y, hb⟩ := Option.isSome_iff_exists.mp hb
  simp only [larger, number, ha, hb]
  exact congrArg Except.ok (if_neg fun hle => h ⟨y, x, hb, ha, hle⟩)

end Standard

end DirectiveFlow
