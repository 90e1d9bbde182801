import DirectiveFlow.Proofs.Comparing
import DirectiveFlow.Proofs.Rounding

namespace DirectiveFlow

open Float.Model (UnpackedFloat Format)
open Float.Model.UnpackedFloat

/-- The mantissa and the exponent of the float that is nearest to a positive integer. -/
def nearest (m : ℕ) : ℕ × ℤ :=
  carried (nearestEven (m * 2 ^ 52) (2 ^ m.log2)) (m.log2 - 52)

/-- The digits of an integer of at most 53 digits, moved up as far as they go. -/
def front (m : ℕ) : ℕ × ℤ :=
  (m * 2 ^ (52 - m.log2), m.log2 - 52)

section Nearest

variable {m m' : ℕ}

theorem log2_front (hm : m ≠ 0) (hu : m < 2 ^ 53) : (front m).1.log2 = 52 := by
  have hl : m.log2 < 53 := (Nat.log2_lt hm).mpr hu
  rw [front, log2_mul_two_pow hm]
  omega

theorem front_mul (hm : m ≠ 0) (hu : m < 2 ^ 53) : m * 2 ^ 52 = (front m).1 * 2 ^ m.log2 := by
  have hl : m.log2 < 53 := (Nat.log2_lt hm).mpr hu
  rw [front, Nat.mul_assoc, ← pow_add, Nat.sub_add_cancel (by omega)]

theorem nearest_of_lt (hm : m ≠ 0) (h : m < 2 ^ 53) : nearest m = front m := by
  have hu : (front m).1 < 2 ^ 53 := by
    have hlt := Nat.lt_log2_self (n := (front m).1)
    rw [log2_front hm h] at hlt
    exact hlt
  rw [nearest, front_mul hm h, nearestEven_mul _ (Nat.two_pow_pos _), carried, if_pos hu]
  rfl

theorem nearestEven_front (hm : m ≠ 0) :
    2 ^ 52 ≤ nearestEven (m * 2 ^ 52) (2 ^ m.log2) ∧
      nearestEven (m * 2 ^ 52) (2 ^ m.log2) ≤ 2 ^ 53 := by
  have hlog := log2_mul_two_pow hm 52
  have hb := nearestEven_bounds (a := m * 2 ^ 52) (by omega)
  rw [hlog, Nat.add_sub_cancel] at hb
  exact hb

theorem nearest_bounds (hm : m ≠ 0) (h : m ≤ 2 ^ 63) :
    2 ^ 52 ≤ (nearest m).1 ∧ (nearest m).1 < 2 ^ 53 ∧ -52 ≤ (nearest m).2 ∧
      (nearest m).2 ≤ 12 := by
  have hlog : m.log2 < 64 := (Nat.log2_lt hm).mpr (by omega)
  obtain ⟨hl, hu, hel, heu⟩ := carried_bounds (nearestEven_front hm).1 (m.log2 - 52)
  rw [nearest]
  omega

theorem nearest_mono (hm : m ≠ 0) (h : m ≤ m') : (nearest m).2 < (nearest m').2 ∨
    (nearest m).2 = (nearest m').2 ∧ (nearest m).1 ≤ (nearest m').1 := by
  have hm' : m' ≠ 0 := by omega
  obtain ⟨-, hu⟩ := nearestEven_front hm
  obtain ⟨hl', hu'⟩ := nearestEven_front hm'
  have hlog : m.log2 ≤ m'.log2 := (Nat.le_log2 hm').mpr ((Nat.log2_self_le hm).trans h)
  simp only [nearest, carried]
  rcases hlog.lt_or_eq with hlt | heq
  · split_ifs <;> omega
  · have hk : nearestEven (m * 2 ^ 52) (2 ^ m.log2) ≤
        nearestEven (m' * 2 ^ 52) (2 ^ m'.log2) := by
      rw [heq]
      exact nearestEven_mono (Nat.mul_le_mul_right _ h)
    split_ifs <;> omega

theorem nearest_value (hm : m ≠ 0) (h : m ≤ 2 ^ 53) :
    m * 2 ^ 52 = (nearest m).1 * 2 ^ ((nearest m).2 + 52).toNat := by
  rcases h.lt_or_eq with h | rfl
  · have hexp : ((front m).2 + 52).toNat = m.log2 := by
      rw [front]
      omega
    rw [nearest_of_lt hm h, hexp, front_mul hm h]
  · rw [nearest, Nat.log2_two_pow, Nat.mul_comm, nearestEven_mul _ (Nat.two_pow_pos 53), carried,
      if_pos (by decide)]
    rfl

theorem nearest_injective (hm : m ≠ 0) (hm' : m' ≠ 0) (h : m ≤ 2 ^ 53) (h' : m' ≤ 2 ^ 53)
    (he : nearest m = nearest m') : m = m' := by
  apply Nat.eq_of_mul_eq_mul_right (Nat.two_pow_pos 52)
  rw [nearest_value hm h, nearest_value hm' h', he]

end Nearest

section Conversion

variable {m : ℕ}

/-- The digits of a number are moved up to 53 before it is rounded, if it has fewer. -/
theorem ofUInt64_eq {n : UInt64} (hn : n.toNat ≠ 0) : UnpackedFloat.ofUInt64 .binary64 n =
    roundWithAccuracy .binary64 .positive (n.toNat * 2 ^ (52 - n.toNat.log2))
      (-(52 - n.toNat.log2 : ℕ)) .exact := by
  have hpos : compare (n.toNat : ℤ) 0 = .gt := Int.compare_eq_gt.mpr (by omega)
  have hs : (0 - (0 + (n.toNat.log2 : ℤ) - 52)).toNat = 52 - n.toNat.log2 := by omega
  rw [UnpackedFloat.ofUInt64, UnpackedFloat.ofNat, UnpackedFloat.ofInt,
    UnpackedFloat.normalize, hpos]
  simp only [UnpackedFloat.round, Int.toNat_natCast]
  rw [targetExponent_of_log2 (by omega), decreaseExponent]
  simp only [hs, Nat.shiftLeft_eq]
  rw [Int.zero_sub]

theorem stores_toFloat {n : UInt64} (hn : n.toNat ≠ 0) (hu : n.toNat < 2 ^ 53) :
    Stores n.toFloat.toModel .positive (front n.toNat) := by
  have hl : n.toNat.log2 < 53 := (Nat.log2_lt hn).mpr hu
  have he : (front n.toNat).2 = -(52 - n.toNat.log2 : ℕ) := by
    rw [front]
    omega
  have hround := ofUInt64_eq hn
  rw [← he] at hround
  have hs := stores_exact .positive (log2_front hn hu) 0 (e := (front n.toNat).2)
    (by omega) (by omega)
  rw [pow_zero, Nat.mul_one, Nat.cast_zero, Int.add_zero] at hs
  change Stores (.pack (UnpackedFloat.ofUInt64 .binary64 n)) _ _
  rw [hround]
  exact hs

theorem stores_toFloat_of_le {n : UInt64} (h : 2 ^ 52 ≤ n.toNat) :
    Stores n.toFloat.toModel .positive
      (carried (nearestEven n.toNat (2 ^ (n.toNat.log2 - 52))) (n.toNat.log2 - 52)) := by
  have hn : n.toNat ≠ 0 := by omega
  have hl : 52 ≤ n.toNat.log2 := (Nat.le_log2 hn).mpr h
  have hlu : n.toNat.log2 < 64 := (Nat.log2_lt hn).mpr n.toNat_lt
  have hround := ofUInt64_eq hn
  rw [Nat.sub_eq_zero_of_le hl, pow_zero, Nat.mul_one, Nat.cast_zero, neg_zero] at hround
  have hs := stores_rounded .positive hl (e := 0) (by omega) (by omega)
  rw [← hround, Int.zero_add] at hs
  exact hs

theorem ofNat_of_lt (h : m < 2 ^ 53) :
    Float.ofNat m = m.toUInt64.toFloat * Float.ofBits 0x3FF0000000000000 :=
  dif_pos ⟨h, Nat.zero_le 22⟩

theorem ofNat_zero : (Float.ofNat 0).toModel = .pack (.zero .positive) := by
  rw [ofNat_of_lt (Nat.two_pow_pos 53)]
  rfl

theorem stores_ofNat_of_lt (hm : m ≠ 0) (hu : m < 2 ^ 53) :
    Stores (Float.ofNat m).toModel .positive (front m) := by
  have hl : m.log2 < 53 := (Nat.log2_lt hm).mpr hu
  have hto : m.toUInt64.toNat = m := Nat.mod_eq_of_lt (by omega)
  have he : (front m).2 = m.log2 - 52 := rfl
  have hs := stores_toFloat (n := m.toUInt64) (by omega) (by omega)
  rw [hto] at hs
  rw [ofNat_of_lt hu]
  exact stores_mul_one hs (log2_front hm hu) (by omega) (by omega)

theorem stores_ofNat_of_le (hm : 2 ^ 53 ≤ m) (hu : m ≤ 2 ^ 63) :
    Stores (Float.ofNat m).toModel .positive (nearest m) := by
  have hm0 : m ≠ 0 := by omega
  have hl : 53 ≤ m.log2 := (Nat.le_log2 hm0).mpr hm
  have hlu : m.log2 < 64 := (Nat.log2_lt hm0).mpr (by omega)
  have hsci : Float.ofNat m = Float.ofModel (Float.Model.ofScientific m 0) :=
    dif_neg fun h => by omega
  have hround : UnpackedFloat.ofScientific .binary64 m 0 =
      roundWithAccuracy .binary64 .positive (m * 2 ^ 53) (-53) .exact := by
    have hlow : ¬ (0 : ℤ) < -(2 ^ Format.binary64.exponentBits + m.log2) := by
      change ¬ (0 : ℤ) < -(2048 + m.log2)
      omega
    rw [UnpackedFloat.ofScientific, dif_neg hm0, if_neg (by decide), if_neg hlow,
      if_pos (by decide)]
    dsimp only [UnpackedFloat.mul]
    rw [Nat.shiftLeft_eq]
    change roundWithAccuracy .binary64 .positive (m * 2 ^ 53 * 1) (-53) .exact = _
    rw [Nat.mul_one]
  have hnear : nearestEven (m * 2 ^ 53) (2 ^ (m.log2 + 1)) =
      nearestEven (m * 2 ^ 52) (2 ^ m.log2) := by
    rw [pow_succ 2 52, ← Nat.mul_assoc, pow_succ 2 m.log2]
    exact nearestEven_mul_right _ _ (by decide)
  have hlog : (m * 2 ^ 53).log2 = m.log2 + 53 := log2_mul_two_pow hm0 53
  have hsplit : m.log2 + 53 - 52 = m.log2 + 1 := by omega
  have hexp : -53 + (m.log2 + 53 : ℕ) - 52 = (m.log2 : ℤ) - 52 := by omega
  have hs := stores_rounded .positive (a := m * 2 ^ 53) (e := -53) (by omega) (by omega)
    (by omega)
  rw [hlog, hsplit, hexp, hnear, ← hround] at hs
  rw [hsci]
  exact hs

theorem stores_ofNat (hm : m ≠ 0) (hu : m ≤ 2 ^ 63) :
    Stores (Float.ofNat m).toModel .positive (nearest m) := by
  rcases Nat.lt_or_ge m (2 ^ 53) with h | h
  · rw [nearest_of_lt hm h]
    exact stores_ofNat_of_lt hm h
  · exact stores_ofNat_of_le h hu

end Conversion

/-- The float that an integer becomes. -/
inductive IsNearest : ℤ → UnpackedFloat → Prop
  | zero : IsNearest 0 (.zero .positive)
  | positive {m : ℕ} (hm : m ≠ 0) (hk : 0 < (nearest m).1) :
      IsNearest m (.finite .positive (nearest m).1 (nearest m).2 hk)
  | negative {m : ℕ} (hm : m ≠ 0) (hk : 0 < (nearest m).1) :
      IsNearest (-m) (.finite .negative (nearest m).1 (nearest m).2 hk)

theorem isNearest_ofInt {z : ℤ} (h : z.natAbs ≤ 2 ^ 63) :
    ∃ a, IsNearest z a ∧ (Float.ofInt z).toModel = .pack a ∧
      (Float.ofInt z).toModel.unpack = a := by
  cases z with
  | ofNat m =>
    rw [Int.ofNat_eq_natCast, Int.natAbs_natCast] at h
    rw [Float.ofInt]
    rcases Nat.eq_zero_or_pos m with rfl | hm
    · rw [ofNat_zero]
      exact ⟨_, .zero, rfl, rfl⟩
    · obtain ⟨hk, hs⟩ := stores_ofNat hm.ne' h
      exact ⟨_, .positive hm.ne' hk, hs⟩
  | negSucc m =>
    rw [Int.natAbs_negSucc] at h
    rw [Float.ofInt, Int.negSucc_eq]
    have hm : m.succ ≠ 0 := Nat.succ_ne_zero m
    obtain ⟨hl, hu, hel, heu⟩ := nearest_bounds hm h
    obtain ⟨hk, hs⟩ := stores_neg (stores_ofNat hm h) hl hu (by omega) (by omega)
    exact ⟨_, .negative hm hk, hs⟩

theorem standing_le_of_sign {a b : UnpackedFloat}
    (h : (ofLex (standing a)).1 < (ofLex (standing b)).1) : standing a ≤ standing b :=
  (Prod.Lex.lt_iff.mpr (.inl h)).le

theorem standing_positive_le {k k' : ℕ} {e e' : ℤ} (hk : 0 < k) (hk' : 0 < k')
    (h : e < e' ∨ e = e' ∧ k ≤ k') :
    standing (.finite .positive k e hk) ≤ standing (.finite .positive k' e' hk') := by
  dsimp only [standing]
  simpa [Prod.Lex.toLex_le_toLex] using h

theorem standing_negative_le {k k' : ℕ} {e e' : ℤ} (hk : 0 < k) (hk' : 0 < k')
    (h : e' < e ∨ e' = e ∧ k' ≤ k) :
    standing (.finite .negative k e hk) ≤ standing (.finite .negative k' e' hk') := by
  dsimp only [standing]
  simpa [Prod.Lex.toLex_le_toLex, eq_comm] using h

theorem finite_eq_of_standing {s : Sign} {k k' : ℕ} {e e' : ℤ} {hk : 0 < k} {hk' : 0 < k'}
    (h : standing (.finite s k e hk) = standing (.finite s k' e' hk')) :
    UnpackedFloat.finite s k e hk = .finite s k' e' hk' := by
  rw [UnpackedFloat.finite.injEq]
  cases s with
  | positive =>
    dsimp only [standing] at h
    simp only [EmbeddingLike.apply_eq_iff_eq, Prod.mk.injEq, Nat.cast_inj, true_and] at h
    exact ⟨rfl, h.2, h.1⟩
  | negative =>
    dsimp only [standing] at h
    simp only [EmbeddingLike.apply_eq_iff_eq, Prod.mk.injEq, neg_inj, Nat.cast_inj,
      true_and] at h
    exact ⟨rfl, h.2, h.1⟩

namespace IsNearest

variable {z z' : ℤ} {a b : UnpackedFloat}

theorem isNaN_eq_false (h : IsNearest z a) : a.isNaN = false := by
  cases h <;> rfl

theorem mono (h : IsNearest z a) (h' : IsNearest z' b) (hz : z ≤ z') :
    standing a ≤ standing b := by
  cases h with
  | zero => cases h' with
    | zero => exact le_rfl
    | positive => exact standing_le_of_sign (show (0 : ℤ) < 1 by decide)
    | negative hm' hk' => omega
  | positive hm hk => cases h' with
    | zero => omega
    | positive hm' hk' => exact standing_positive_le hk hk' (nearest_mono hm (Int.ofNat_le.mp hz))
    | negative hm' hk' => omega
  | negative hm hk => cases h' with
    | zero => exact standing_le_of_sign (show (-1 : ℤ) < 0 by decide)
    | positive => exact standing_le_of_sign (show (-1 : ℤ) < 1 by decide)
    | negative hm' hk' =>
      have hle := Int.ofNat_le.mp (Int.neg_le_neg_iff.mp hz)
      exact standing_negative_le hk hk' (nearest_mono hm' hle)

theorem eq_of_standing (h : IsNearest z a) (h' : IsNearest z' b)
    (hs : standing a = standing b) : a = b := by
  have hsign : (ofLex (standing a)).1 = (ofLex (standing b)).1 := by rw [hs]
  cases h with
  | zero => cases h' with
    | zero => rfl
    | positive => exact absurd hsign (show (0 : ℤ) ≠ 1 by decide)
    | negative => exact absurd hsign (show (0 : ℤ) ≠ -1 by decide)
  | positive hm hk => cases h' with
    | zero => exact absurd hsign (show (1 : ℤ) ≠ 0 by decide)
    | positive => exact finite_eq_of_standing hs
    | negative => exact absurd hsign (show (1 : ℤ) ≠ -1 by decide)
  | negative hm hk => cases h' with
    | zero => exact absurd hsign (show (-1 : ℤ) ≠ 0 by decide)
    | positive => exact absurd hsign (show (-1 : ℤ) ≠ 1 by decide)
    | negative => exact finite_eq_of_standing hs

/-- Up to `2 ^ 53` an integer can be read off its float. -/
theorem injective (h : IsNearest z a) (h' : IsNearest z' a) (hz : z.natAbs ≤ 2 ^ 53)
    (hz' : z'.natAbs ≤ 2 ^ 53) : z = z' := by
  generalize hb : a = b at h'
  cases h with
  | zero => cases h' with
    | zero => rfl
    | positive => cases hb
    | negative => cases hb
  | positive hm hk => cases h' with
    | zero => cases hb
    | positive hm' hk' =>
      obtain ⟨-, hk, he⟩ := UnpackedFloat.finite.inj hb
      exact congrArg Nat.cast (nearest_injective hm hm' hz hz' (Prod.ext hk he))
    | negative => cases hb
  | negative hm hk => cases h' with
    | zero => cases hb
    | positive => cases hb
    | negative hm' hk' =>
      rw [Int.natAbs_neg] at hz hz'
      obtain ⟨-, hk, he⟩ := UnpackedFloat.finite.inj hb
      rw [nearest_injective hm hm' hz hz' (Prod.ext hk he)]

end IsNearest

namespace Value

variable {x y : Int64}

theorem exists_isNearest_widen (n : Int64) :
    ∃ a, IsNearest n.toInt a ∧ (widen n).toModel = .pack a ∧ (widen n).toModel.unpack = a := by
  have hl := n.le_toInt
  have hu := n.toInt_lt
  exact isNearest_ofInt (by omega)

theorem isNearest_widen (n : Int64) : IsNearest n.toInt (widen n).toModel.unpack := by
  obtain ⟨a, hn, -, ha⟩ := exists_isNearest_widen n
  rwa [ha]

theorem widen_eq_of_unpack (h : (widen x).toModel.unpack = (widen y).toModel.unpack) :
    widen x = widen y := by
  obtain ⟨a, -, hx, ha⟩ := exists_isNearest_widen x
  obtain ⟨b, -, hy, hb⟩ := exists_isNearest_widen y
  rw [ha, hb] at h
  rw [h] at hx
  exact congrArg Float.ofModel (hx.trans hy.symm)

theorem comparable_int (n : Int64) : (int n).comparable := by
  have hn := (isNearest_widen n).isNaN_eq_false
  rw [comparable, float?, Option.any_some, Float.isNaN, Float.Model.isNaN, hn]
  rfl

theorem int_atMost_iff : (int x).AtMost (int y) ↔
    standing (widen x).toModel.unpack ≤ standing (widen y).toModel.unpack := by
  rw [atMost_iff rfl rfl]
  exact ⟨fun h => h.2.2, fun h => ⟨comparable_int x, comparable_int y, h⟩⟩

theorem int_atMost_of_le (h : x.toInt ≤ y.toInt) : (int x).AtMost (int y) :=
  int_atMost_iff.mpr ((isNearest_widen x).mono (isNearest_widen y) h)

/-- An integer that is not larger as a float is not larger, or only by what widening loses. -/
theorem le_or_widen_eq (h : (int x).AtMost (int y)) :
    x.toInt ≤ y.toInt ∨ widen x = widen y := by
  rcases Int.le_total x.toInt y.toInt with hle | hle
  · exact .inl hle
  · right
    have h' := int_atMost_of_le hle
    have hs := (int_atMost_iff.mp h).antisymm (int_atMost_iff.mp h')
    exact widen_eq_of_unpack ((isNearest_widen x).eq_of_standing (isNearest_widen y) hs)

theorem lt_and_widen_ne (h : ¬ (int y).AtMost (int x)) :
    x.toInt < y.toInt ∧ widen x ≠ widen y := by
  constructor
  · by_contra hle
    exact h (int_atMost_of_le (Int.not_lt.mp hle))
  · intro he
    apply h
    rw [int_atMost_iff, he]

theorem le_of_int_atMost (hx : x.toInt.natAbs ≤ 2 ^ 53) (hy : y.toInt.natAbs ≤ 2 ^ 53)
    (h : (int x).AtMost (int y)) : x.toInt ≤ y.toInt := by
  rcases le_or_widen_eq h with hle | he
  · exact hle
  · have hn := isNearest_widen x
    rw [he] at hn
    exact Int.le_of_eq (hn.injective (isNearest_widen y) hx hy)

end Value

end DirectiveFlow
