import Mathlib.Algebra.Order.Ring.Int

namespace DirectiveFlow

open Float.Model (UnpackedFloat Format totalExponent)
open Float.Model.UnpackedFloat

/-- A quotient rounded to the nearest integer, to the even one of two that are as near. -/
def nearestEven (a b : ℕ) : ℕ :=
  if 2 * (a % b) < b then a / b
  else if 2 * (a % b) = b then a / b + a / b % 2
  else a / b + 1

theorem nearestEven_mono {a a' b : ℕ} (h : a ≤ a') : nearestEven a b ≤ nearestEven a' b := by
  have hq : a / b ≤ a' / b := Nat.div_le_div_right h
  unfold nearestEven
  rcases hq.lt_or_eq with hq | hq
  · split_ifs <;> omega
  · have ha := Nat.div_add_mod a b
    have ha' := Nat.div_add_mod a' b
    rw [hq] at ha ⊢
    have hr : a % b ≤ a' % b := by omega
    split_ifs <;> omega

theorem nearestEven_mul (k : ℕ) {b : ℕ} (hb : 0 < b) : nearestEven (k * b) b = k := by
  rw [nearestEven, Nat.mul_mod_left, if_pos (by omega), Nat.mul_div_cancel k hb]

theorem nearestEven_mul_right (a b : ℕ) {c : ℕ} (hc : 0 < c) :
    nearestEven (a * c) (b * c) = nearestEven a b := by
  have hd : a * c / (b * c) = a / b := Nat.mul_div_mul_right a b hc
  have hm : a * c % (b * c) = a % b * c := Nat.mul_mod_mul_right c a b
  have hlt : 2 * (a % b * c) < b * c ↔ 2 * (a % b) < b := by
    rw [← Nat.mul_assoc]
    exact Nat.mul_lt_mul_right hc
  have heq : 2 * (a % b * c) = b * c ↔ 2 * (a % b) = b := by
    rw [← Nat.mul_assoc]
    exact Nat.mul_left_inj hc.ne'
  simp only [nearestEven, hd, hm, hlt, heq]

theorem log2_mul_two_pow {m : ℕ} (hm : m ≠ 0) (n : ℕ) : (m * 2 ^ n).log2 = m.log2 + n := by
  have hp : m * 2 ^ n ≠ 0 := Nat.mul_ne_zero hm (Nat.two_pow_pos n).ne'
  rw [Nat.log2_eq_iff hp, pow_add, Nat.add_right_comm, pow_add _ _ n]
  constructor
  · exact Nat.mul_le_mul_right _ (Nat.log2_self_le hm)
  · exact Nat.mul_lt_mul_of_pos_right Nat.lt_log2_self (Nat.two_pow_pos n)

/-- What is kept of a quotient: its integer part, the digit behind it, and whether
there is more. -/
structure Keeps (em : ExtendedMantissa) (a b : ℕ) : Prop where
  mantissa : em.mantissa = a / b
  roundBit : em.roundBit = true ↔ b ≤ 2 * (a % b)
  stickyBit : em.stickyBit = true ↔ 2 * (a % b) ≠ 0 ∧ 2 * (a % b) ≠ b

namespace Keeps

variable {em : ExtendedMantissa} {a b : ℕ}

theorem one (a : ℕ) : Keeps ⟨a, false, false⟩ a 1 where
  mantissa := (Nat.div_one a).symm
  roundBit := by simp [Nat.mod_one]
  stickyBit := by simp [Nat.mod_one]

theorem shiftRightOne (h : Keeps em a b) (hb : 0 < b) : Keeps em.shiftRightOne a (b * 2) := by
  have hm := Nat.mod_lt a hb
  have hmod : a % (b * 2) = a % b + b * (a / b % 2) := Nat.mod_mul
  have hrest : (em.roundBit || em.stickyBit) = true ↔ a % b ≠ 0 := by
    rw [Bool.or_eq_true, h.roundBit, h.stickyBit]
    omega
  constructor
  case mantissa => simp only [ExtendedMantissa.shiftRightOne, h.mantissa, Nat.div_div_eq_div_mul]
  all_goals
    simp only [ExtendedMantissa.shiftRightOne, hrest, h.mantissa, hmod, bne_iff_ne]
    rcases Nat.mod_two_eq_zero_or_one (a / b) with h2 | h2
    all_goals
      rw [h2]
      omega

theorem shiftRight (a n : ℕ) : Keeps (ExtendedMantissa.mk a false false >>> n) a (2 ^ n) := by
  induction n with
  | zero => exact one a
  | succ n ih => exact ih.shiftRightOne (Nat.two_pow_pos n)

theorem rounded (h : Keeps em a b) (hb : 0 < b) : em.roundedMantissa = nearestEven a b := by
  obtain ⟨m, r, s⟩ := em
  obtain ⟨rfl, hr, hs⟩ := h
  unfold nearestEven
  cases r <;> cases s <;>
    simp only [ExtendedMantissa.roundedMantissa, ExtendedMantissa.accuracy,
      Accuracy.roundToNearestEven, Bool.false_eq_true, false_iff, true_iff] at * <;>
    split_ifs <;> omega

end Keeps

/-- A mantissa that a rounding may have made one digit longer than the 53 that are kept, with
its exponent. -/
def carried (k : ℕ) (e : ℤ) : ℕ × ℤ :=
  if k < 2 ^ 53 then (k, e) else (2 ^ 52, e + 1)

theorem carried_bounds {k : ℕ} (hl : 2 ^ 52 ≤ k) (e : ℤ) :
    2 ^ 52 ≤ (carried k e).1 ∧ (carried k e).1 < 2 ^ 53 ∧ e ≤ (carried k e).2 ∧
      (carried k e).2 ≤ e + 1 := by
  rw [carried]
  split_ifs <;> omega

theorem nearestEven_bounds {a : ℕ} (h : 52 ≤ a.log2) :
    2 ^ 52 ≤ nearestEven a (2 ^ (a.log2 - 52)) ∧
      nearestEven a (2 ^ (a.log2 - 52)) ≤ 2 ^ 53 := by
  have ha : a ≠ 0 := by
    rintro rfl
    simp at h
  have hpow (n : ℕ) : 2 ^ (a.log2 - 52) * 2 ^ (52 + n) = 2 ^ (a.log2 + n) := by
    rw [← pow_add]
    congr 1
    omega
  have hlow : 2 ^ 52 ≤ a / 2 ^ (a.log2 - 52) := by
    rw [Nat.le_div_iff_mul_le (Nat.two_pow_pos _), Nat.mul_comm, hpow 0]
    exact Nat.log2_self_le ha
  have hhigh : a / 2 ^ (a.log2 - 52) < 2 ^ 53 := by
    rw [Nat.div_lt_iff_lt_mul (Nat.two_pow_pos _), Nat.mul_comm, hpow 1]
    exact Nat.lt_log2_self
  unfold nearestEven
  split_ifs <;> omega

theorem targetExponent_of_log2 {m : ℕ} {e : ℤ} (h : -1074 ≤ e + m.log2 - 52) :
    Format.binary64.targetExponent (totalExponent m e) = e + m.log2 - 52 := by
  have hmin : Format.binary64.minExponent = -1074 := by decide
  rw [Format.targetExponent, hmin, totalExponent]
  change max (m.log2 + 1 + e - 53) (-1074) = _
  omega

theorem shiftToTargetExponent_of_le_log2 {a : ℕ} {e : ℤ} (h : 52 ≤ a.log2) (he : -1074 ≤ e) :
    shiftToTargetExponent .binary64 a e .exact =
      (ExtendedMantissa.mk a false false >>> (a.log2 - 52), e + a.log2 - 52) := by
  have hn : (e + a.log2 - 52 - e).toNat = a.log2 - 52 := by omega
  rw [shiftToTargetExponent, targetExponent_of_log2 (by omega), shiftToExponent]
  simp only [hn, ExtendedMantissa.ofMantissaAndAccuracy]
  congr 1
  omega

/-- The second shift takes back the digit that a rounding has carried. -/
theorem shiftToTargetExponent_carried {k : ℕ} {e : ℤ} (hl : 2 ^ 52 ≤ k) (hu : k ≤ 2 ^ 53)
    (he : -1074 ≤ e) :
    ((shiftToTargetExponent .binary64 k e .exact).1.mantissa,
      (shiftToTargetExponent .binary64 k e .exact).2) = carried k e := by
  have hk : 52 ≤ k.log2 := (Nat.le_log2 (by omega)).mpr hl
  rw [shiftToTargetExponent_of_le_log2 hk he, carried]
  dsimp only
  rw [(Keeps.shiftRight k (k.log2 - 52)).mantissa]
  rcases hu.lt_or_eq with hu | rfl
  · have hlog : k.log2 = 52 := (Nat.log2_eq_iff (by omega)).mpr ⟨hl, hu⟩
    rw [if_pos hu, hlog, Nat.sub_self, pow_zero, Nat.div_one]
    congr 1
    omega
  · rw [if_neg (by omega), Nat.log2_two_pow]
    congr 1
    omega

/-- A number of 53 digits or more is rounded to 53 digits. -/
theorem roundWithAccuracy_of_le_log2 (s : Sign) {a : ℕ} {e : ℤ} (h : 52 ≤ a.log2)
    (he : -1074 ≤ e) :
    ∃ k e' hk, roundWithAccuracy .binary64 s a e .exact = .finite s k e' hk ∧
      (k, e') = carried (nearestEven a (2 ^ (a.log2 - 52))) (e + a.log2 - 52) := by
  obtain ⟨hlow, hhigh⟩ := nearestEven_bounds h
  rw [← (Keeps.shiftRight a (a.log2 - 52)).rounded (Nat.two_pow_pos _)] at hlow hhigh ⊢
  have hc := shiftToTargetExponent_carried hlow hhigh (e := e + a.log2 - 52) (by omega)
  have hpos := (carried_bounds hlow (e + a.log2 - 52)).1
  rw [← hc] at hpos
  have hk := (Nat.two_pow_pos 52).trans_le hpos
  refine ⟨_, _, hk, ?_, hc⟩
  rw [roundWithAccuracy, shiftToTargetExponent_of_le_log2 h he]
  exact dif_neg hk.ne'

theorem sign_packComponents (s : Sign) (exponent : BitVec Format.binary64.exponentBits)
    (mantissa : BitVec Format.binary64.mantissaBitsWithoutImplicit) :
    Sign.ofBitVec (unpackSign (packComponents .binary64 s exponent mantissa)) = s := by
  have hsign : unpackSign (packComponents .binary64 s exponent mantissa) = s.toBitVec := by
    change (s.toBitVec ++ exponent ++ mantissa).extractLsb' 63 1 = s.toBitVec
    rw [BitVec.extractLsb'_append_eq_of_le (by decide),
      BitVec.extractLsb'_append_eq_of_le (by decide)]
    exact BitVec.extractLsb'_eq_self
  rw [hsign]
  cases s with
  | positive => rfl
  | negative => rfl

theorem pack_of_normal (s : Sign) {k b : ℕ} {e : ℤ} (hk : 0 < k) (hlog : k.log2 = 52)
    (he : e + 1075 = b) (hb : b < 2047) :
    pack .binary64 (.finite s k e hk) =
      packComponents .binary64 s (BitVec.ofNat 11 b) (BitVec.ofNat 52 k) := by
  have hbits : k.log2 + 1 = Format.binary64.mantissaBits := by
    rw [hlog]
    rfl
  have hbias : (e + Format.binary64.exponentBias +
      Format.binary64.mantissaBitsWithoutImplicit).toNat = b := by
    change (e + 1023 + 52).toNat = b
    omega
  change ite (2048 ≤ (e + 1023 + 52).toNat + 1) _ (ite _ _ _) = _
  rw [if_neg (by omega), if_pos hbits, hbias]

theorem unpack_of_normal (s : Sign) {k b : ℕ} (hk : 0 < k) (hl : 2 ^ 52 ≤ k) (hu : k < 2 ^ 53)
    (hpos : 0 < b) (hb : b < 2047) :
    unpack .binary64 (packComponents .binary64 s (BitVec.ofNat 11 b) (BitVec.ofNat 52 k)) =
      .finite s k (b - 1075) hk := by
  have hbits : (BitVec.ofNat 11 b).toNat = b := by
    rw [BitVec.toNat_ofNat, Nat.mod_eq_of_lt (by omega)]
  -- neither the exponent of the zeros nor that of the infinities
  have hzero : BitVec.ofNat 11 b ≠ 0#_ := by
    intro h
    have := congrArg BitVec.toNat h
    rw [hbits, BitVec.toNat_zero] at this
    omega
  have hones : BitVec.ofNat 11 b ≠ -1#_ := by
    intro h
    have := congrArg BitVec.toNat h
    rw [hbits] at this
    change b = 2047 at this
    omega
  have hm : (1#1 ++ BitVec.ofNat 52 k).toNat = k := by
    rw [BitVec.toNat_append, ← Nat.shiftLeft_add_eq_or_of_lt (BitVec.isLt _), BitVec.toNat_ofNat]
    simp only [BitVec.toNat_ofNat, Nat.shiftLeft_eq]
    omega
  change ite _ _ (ite _ _ (UnpackedFloat.finite _ _ _ _)) = _
  rw [if_neg, if_neg, UnpackedFloat.finite.injEq]
  · refine ⟨sign_packComponents _ _ _, ?_, ?_⟩
    · rw [unpackMantissa_packComponents]
      exact hm
    · rw [unpackExponent_packComponents]
      change ((BitVec.ofNat 11 b).toNat : ℤ) - (1023 + 52) = b - 1075
      rw [hbits]
      omega
  · rw [unpackExponent_packComponents]
    exact hzero
  · rw [unpackExponent_packComponents]
    exact hones

/-- A float with a mantissa of 53 digits is found again in its bits. -/
theorem unpack_pack_of_normal (s : Sign) {k : ℕ} {e : ℤ} (hk : 0 < k) (hl : 2 ^ 52 ≤ k)
    (hu : k < 2 ^ 53) (he : -1074 ≤ e) (he' : e ≤ 971) :
    (Float.Model.pack (.finite s k e hk)).unpack = .finite s k e hk := by
  obtain ⟨b, hb⟩ := Int.eq_ofNat_of_zero_le (a := e + 1075) (by omega)
  have hlog : k.log2 = 52 := (Nat.log2_eq_iff hk.ne').mpr ⟨hl, hu⟩
  have hexp : (b : ℤ) - 1075 = e := by omega
  change unpack .binary64 (pack .binary64 (.finite s k e hk)) = _
  rw [pack_of_normal s hk hlog hb (by omega), unpack_of_normal s hk hl hu (by omega) (by omega),
    hexp]

/-- A float is packed from a sign, a mantissa and an exponent, and they are found in it again. -/
def Stores (x : Float.Model) (s : Sign) (digits : ℕ × ℤ) : Prop :=
  ∃ hk, x = .pack (.finite s digits.1 digits.2 hk) ∧ x.unpack = .finite s digits.1 digits.2 hk

theorem stores_pack (s : Sign) {k : ℕ} {e : ℤ} (hk : 0 < k) (hl : 2 ^ 52 ≤ k) (hu : k < 2 ^ 53)
    (he : -1074 ≤ e) (he' : e ≤ 971) : Stores (.pack (.finite s k e hk)) s (k, e) :=
  ⟨hk, rfl, unpack_pack_of_normal s hk hl hu he he'⟩

theorem stores_rounded (s : Sign) {a : ℕ} {e : ℤ} (h : 52 ≤ a.log2) (he : -1074 ≤ e)
    (he' : e + a.log2 ≤ 1022) :
    Stores (.pack (roundWithAccuracy .binary64 s a e .exact)) s
      (carried (nearestEven a (2 ^ (a.log2 - 52))) (e + a.log2 - 52)) := by
  obtain ⟨k, e', hk, hr, hc⟩ := roundWithAccuracy_of_le_log2 s h he
  have hb := carried_bounds (nearestEven_bounds h).1 (e + a.log2 - 52)
  rw [← hc] at hb ⊢
  obtain ⟨hl, hu, hel, heu⟩ := hb
  rw [hr]
  exact stores_pack s hk hl hu (by omega) (by omega)

/-- Nothing is lost of a number whose digits behind the first 53 are zeros. -/
theorem stores_exact (s : Sign) {k : ℕ} (hk : k.log2 = 52) (n : ℕ) {e : ℤ} (he : -1074 ≤ e)
    (he' : e + n ≤ 970) :
    Stores (.pack (roundWithAccuracy .binary64 s (k * 2 ^ n) e .exact)) s (k, e + n) := by
  have hk0 : k ≠ 0 := by
    rintro rfl
    simp at hk
  have hlog : (k * 2 ^ n).log2 = 52 + n := by rw [log2_mul_two_pow hk0, hk]
  have hu : k < 2 ^ 53 := (Nat.log2_lt hk0).mp (by omega)
  have hexp : e + (52 + n : ℕ) - 52 = e + n := by omega
  have hs := stores_rounded s (a := k * 2 ^ n) (e := e) (by omega) he (by omega)
  rw [hlog, Nat.add_sub_cancel_left, nearestEven_mul k (Nat.two_pow_pos n), hexp, carried,
    if_pos hu] at hs
  exact hs

theorem stores_mul_one {x : Float} {s : Sign} {k : ℕ} {e : ℤ} (h : Stores x.toModel s (k, e))
    (hk : k.log2 = 52) (he : -1022 ≤ e) (he' : e ≤ 970) :
    Stores (x * Float.ofBits 0x3FF0000000000000).toModel s (k, e) := by
  obtain ⟨hpos, -, hx⟩ := h
  have hone : (Float.ofBits 0x3FF0000000000000).toModel.unpack =
      .finite .positive (2 ^ 52) (-52) (Nat.two_pow_pos 52) := by
    rfl
  have hexp : e + -52 + (52 : ℕ) = e := by omega
  have hs := stores_exact s hk 52 (e := e + -52) (by omega) (by omega)
  rw [hexp] at hs
  change Stores (.pack (.mul .binary64 x.toModel.unpack
    (Float.ofBits 0x3FF0000000000000).toModel.unpack)) _ _
  rw [hx, hone]
  cases s with
  | positive => exact hs
  | negative => exact hs

theorem stores_neg {x : Float} {digits : ℕ × ℤ} (h : Stores x.toModel .positive digits)
    (hl : 2 ^ 52 ≤ digits.1) (hu : digits.1 < 2 ^ 53) (he : -1074 ≤ digits.2)
    (he' : digits.2 ≤ 971) : Stores x.neg.toModel .negative digits := by
  obtain ⟨hk, -, hx⟩ := h
  change Stores (.pack x.toModel.unpack.neg) _ _
  rw [hx]
  exact stores_pack .negative hk hl hu he he'

end DirectiveFlow
