import SafetyIsland.Ieee.Float

namespace Ieee

open Float.Model (Format UnpackedFloat totalExponent)
open Float.Model.UnpackedFloat

section

variable {spec : Format} {u v : UnpackedFloat}

theorem approx_inexact (q : ℕ) {f : ℚ} (h₀ : 0 < f) (h₁ : f < 1) :
    Approx (.ofMantissaAndAccuracy q (.inexact (cmp f (1 / 2)))) (q + f) := by
  rcases lt_trichotomy f (1 / 2) with h | h | h
  case inl =>
    rw [(cmp_eq_lt_iff ..).mpr h]
    refine ⟨?_, ?_, ?_, ?_⟩ <;> simp [ExtendedMantissa.ofMantissaAndAccuracy] <;> grind
  case inr.inl =>
    rw [(cmp_eq_eq_iff ..).mpr h]
    refine ⟨?_, ?_, ?_, ?_⟩ <;> simp [ExtendedMantissa.ofMantissaAndAccuracy] <;> grind
  case inr.inr =>
    rw [(cmp_eq_gt_iff ..).mpr h]
    refine ⟨?_, ?_, ?_, ?_⟩ <;> simp [ExtendedMantissa.ofMantissaAndAccuracy] <;> grind

theorem compare_double {r d : ℕ} (hd : (0 : ℚ) < d) : compare (2 * r) d = cmp (r / d : ℚ) (1 / 2) := by
  have hm : StrictMono fun x : ℚ => x / (2 * d) := fun _ _ h =>
    div_lt_div_of_pos_right h (by positivity)
  calc compare (2 * r) d
    _ = cmp (2 * r) d := (cmp_eq_compare _ _).symm
    _ = cmp ((2 * r : ℕ) : ℚ) d := (Nat.strictMono_cast.cmp_map_eq _ _).symm
    _ = cmp (((2 * r : ℕ) : ℚ) / (2 * d)) ((d : ℚ) / (2 * d)) := (hm.cmp_map_eq _ _).symm
    _ = cmp (r / d : ℚ) (1 / 2) := by
      congr 1
      case e_a => push_cast; field_simp
      case e_b => field_simp

theorem approx_quotient (n : ℕ) {d : ℕ} (hd : 0 < d) :
    Approx (.ofMantissaAndAccuracy (n / d) (accuracyOfFraction (n % d) d)) (n / d : ℚ) := by
  have hd' : (0 : ℚ) < d := by exact_mod_cast hd
  have hr : ((n % d : ℕ) : ℚ) < d := by exact_mod_cast Nat.mod_lt n hd
  have hx : (n / d : ℚ) = (n / d : ℕ) + (n % d : ℕ) / d := by
    have hn : (n : ℚ) = d * (n / d : ℕ) + (n % d : ℕ) := by
      exact_mod_cast (Nat.div_add_mod n d).symm
    rw [hn]
    field_simp
  rw [hx, accuracyOfFraction]
  by_cases h₀ : n % d = 0
  case pos => simpa [h₀] using Approx.exact (n / d)
  case neg =>
    have hp : (0 : ℚ) < (n % d : ℕ) := by exact_mod_cast Nat.pos_of_ne_zero h₀
    rw [if_neg h₀, compare_double hd']
    exact approx_inexact _ (div_pos hp hd') ((div_lt_one hd').mpr hr)

theorem zpow_totalExponent_le {m : ℕ} (hm : 0 < m) (e : ℤ) :
    (2 : ℚ) ^ (totalExponent m e - 1) ≤ m * 2 ^ e := by
  have hl : (2 : ℚ) ^ m.log2 ≤ m := by exact_mod_cast Nat.log2_self_le hm.ne'
  calc (2 : ℚ) ^ (totalExponent m e - 1)
    _ = 2 ^ m.log2 * 2 ^ e := by
      rw [totalExponent, show (m.log2 + 1 + e - 1 : ℤ) = m.log2 + e by ring,
        zpow_add₀ (by norm_num), zpow_natCast]
    _ ≤ m * 2 ^ e := by
      have := two_zpow_pos e
      gcongr

theorem lt_zpow_totalExponent (m : ℕ) (e : ℤ) : m * 2 ^ e < (2 : ℚ) ^ totalExponent m e := by
  have hl : (m : ℚ) < 2 ^ (m.log2 + 1) := by exact_mod_cast Nat.lt_log2_self
  calc (m * 2 ^ e : ℚ)
    _ < 2 ^ (m.log2 + 1) * 2 ^ e := by
      have := two_zpow_pos e
      gcongr
    _ = 2 ^ totalExponent m e := by
      rw [totalExponent, zpow_add₀ (by norm_num), zpow_add₀ (by norm_num)]
      norm_cast

theorem divCore_roundsTo {s : Sign} {m₁ m₂ : ℕ} {e₁ e₂ : ℤ} (h₁ : 0 < m₁) (h₂ : 0 < m₂)
    (h : (2 : ℚ) ^ spec.minExponent ≤ (m₁ * 2 ^ e₁) / (m₂ * 2 ^ e₂)) :
    RoundsTo spec
      (roundWithAccuracy spec s (divCore spec m₁ e₁ m₂ e₂).1 (divCore spec m₁ e₁ m₂ e₂).2.1
        (divCore spec m₁ e₁ m₂ e₂).2.2)
      (signed s (rounded spec ((m₁ * 2 ^ e₁) / (m₂ * 2 ^ e₂)))) := by
  simp only [divCore, Nat.shiftLeft_eq]
  generalize ht : min (e₁ - e₂) (spec.targetExponent (totalExponent m₁ e₁ - totalExponent m₂ e₂)) = t
  have hm₂ : (0 : ℚ) < m₂ := by exact_mod_cast h₂
  have hp₁ := two_zpow_pos e₁
  have hp₂ := two_zpow_pos e₂
  have hpt := two_zpow_pos t
  -- the shifted quotient in units of the exponent is the exact one
  have hq : ((m₁ * 2 ^ (e₁ - e₂ - t).toNat : ℕ) / m₂ : ℚ) * 2 ^ t = m₁ * 2 ^ e₁ / (m₂ * 2 ^ e₂) := by
    have hs : (2 : ℚ) ^ (e₁ - e₂ - t).toNat * 2 ^ t * 2 ^ e₂ = 2 ^ e₁ := by
      rw [← zpow_natCast, ← zpow_add₀ (by norm_num), ← zpow_add₀ (by norm_num)]
      congr 1
      omega
    push_cast
    rw [← hs]
    field_simp
  have ha := approx_quotient (m₁ * 2 ^ (e₁ - e₂ - t).toNat) h₂
  generalize m₁ * 2 ^ (e₁ - e₂ - t).toNat = n at hq ha ⊢
  rw [← hq] at h ⊢
  -- the exact quotient is above the power of two that the exponents give
  have hlo : (2 : ℚ) ^ (totalExponent m₁ e₁ - totalExponent m₂ e₂ - 1) < n / m₂ * 2 ^ t := by
    have hl₁ := zpow_totalExponent_le h₁ e₁
    have hl₂ := lt_zpow_totalExponent m₂ e₂
    rw [hq, lt_div_iff₀ (by positivity)]
    calc (2 : ℚ) ^ (totalExponent m₁ e₁ - totalExponent m₂ e₂ - 1) * (m₂ * 2 ^ e₂)
      _ < 2 ^ (totalExponent m₁ e₁ - totalExponent m₂ e₂ - 1) * 2 ^ totalExponent m₂ e₂ := by
        gcongr
      _ = 2 ^ (totalExponent m₁ e₁ - 1) := by
        rw [← zpow_add₀ (by norm_num)]
        congr 1
        omega
      _ ≤ m₁ * 2 ^ e₁ := hl₁
  have hx : (1 : ℚ) ≤ n / m₂ := by
    have hle : (2 : ℚ) ^ t ≤ n / m₂ * 2 ^ t := by
      rcases le_or_gt t spec.minExponent with hm | hm
      case inl => exact (zpow_le_zpow_right₀ (by norm_num) hm).trans h
      case inr =>
        refine (zpow_le_zpow_right₀ (by norm_num) ?_).trans hlo.le
        have hb : 1 ≤ spec.mantissaBits := mantissaBits_pos
        simp only [Format.targetExponent] at ht
        omega
    exact (le_mul_iff_one_le_left hpt).mp hle
  have hl := ha.le
  have hu := ha.lt
  rw [mantissa_ofMantissaAndAccuracy] at hl hu
  have hm : 0 < n / m₂ := by
    by_contra hz
    rw [Nat.pos_iff_ne_zero, not_not] at hz
    rw [hz] at hu
    push_cast at hu
    linarith
  refine roundWithAccuracy_roundsTo hm ha ?_
  have hlog := log_scaled t hm hl hu
  have hge : totalExponent m₁ e₁ - totalExponent m₂ e₂ - 1 ≤ Int.log 2 (n / m₂ * 2 ^ t : ℚ) := by
    rw [← Int.zpow_le_iff_le_log (by norm_num) (by positivity)]
    exact_mod_cast hlo.le
  rw [hlog] at hge
  simp only [Format.targetExponent, totalExponent] at ht hge ⊢
  omega

theorem signed_div (s₁ s₂ : Sign) (x y : ℚ) : signed (s₁ / s₂) (x / y) = signed s₁ x / signed s₂ y := by
  cases s₁ <;> cases s₂
  case negative.negative => exact (neg_div_neg_eq x y).symm
  case negative.positive => exact (neg_div y x).symm
  case positive.negative => exact (div_neg x).symm
  case positive.positive => rfl

theorem div_roundsTo (fu : u.isFinite = true) (fv : v.isFinite = true) (hv : toRat v ≠ 0)
    (h : toRat u = 0 ∨ (2 : ℚ) ^ spec.minExponent ≤ |toRat u / toRat v|) :
    RoundsTo spec (div spec u v) (rounded spec (toRat u / toRat v)) := by
  rcases u with _ | _ | s₁ | ⟨s₁, m₁, e₁, p₁⟩ <;> rcases v with _ | _ | s₂ | ⟨s₂, m₂, e₂, p₂⟩
  case zero.finite => exact (zero_div (toRat (.finite s₂ m₂ e₂ p₂))).symm ▸ zero_roundsTo _
  case finite.finite =>
    have hp₁ := finite_pos p₁ e₁
    have hp₂ := finite_pos p₂ e₂
    rw [toRat, toRat] at h
    rw [toRat, toRat, ← signed_div, ← signed_rounded]
    refine divCore_roundsTo p₁ p₂ ?_
    rcases h with h | h
    case inl =>
      have := abs_signed s₁ (m₁ * 2 ^ e₁)
      rw [h, abs_zero, abs_of_pos hp₁] at this
      exact absurd this hp₁.ne
    case inr => rwa [← signed_div, abs_signed, abs_of_pos (div_pos hp₁ hp₂)] at h
  all_goals first | exact absurd rfl hv | exact absurd fu Bool.false_ne_true

end

section

variable {x y z : Float}

theorem IsFinite.div (hx : IsFinite x) (hy : IsFinite y) (h₀ : rat y ≠ 0)
    (h : rat x = 0 ∨ (2 : ℚ) ^ Format.binary64.minExponent ≤ |rat x / rat y|) :
    IsNumber (x / y) ∧ val (x / y) = ofRat .binary64 (rat x / rat y) :=
  roundsTo_repack (by decide) <| div_roundsTo hx hy h₀ h

theorem ofScientific_roundsTo {spec : Format} (n : ℕ) :
    RoundsTo spec (ofScientific spec n 0) (rounded spec n) := by
  by_cases hn : n = 0
  case pos =>
    subst hn
    simpa [ofScientific] using zero_roundsTo .positive
  case neg =>
    have hn : 0 < n := Nat.pos_of_ne_zero hn
    have hs : ofScientific spec n 0 = roundWithAccuracy spec .positive
        (n * 2 ^ spec.mantissaBits) (-spec.mantissaBits) .exact := by
      have h₁ : ¬(0 : ℤ) > 2 ^ spec.exponentBits := not_lt.mpr (by positivity)
      have h₂ : ¬(0 : ℤ) < -(2 ^ spec.exponentBits + n.log2) := not_lt.mpr (by
        rw [Left.neg_nonpos_iff]
        positivity)
      simp only [ofScientific, hn.ne', h₁, h₂, UnpackedFloat.mul, Nat.shiftLeft_eq, dite_false,
        if_false, le_refl, if_true, Int.toNat_zero, pow_zero, mul_one, add_zero]
      rfl
    have hv : (n : ℚ) = (n * 2 ^ spec.mantissaBits : ℕ) * 2 ^ (-spec.mantissaBits : ℤ) := by
      rw [zpow_neg, zpow_natCast]
      push_cast
      rw [mul_assoc, mul_inv_cancel₀ (by positivity), mul_one]
    rw [hs, hv]
    refine roundWithAccuracy_roundsTo (Nat.mul_pos hn (Nat.two_pow_pos _)) (.exact _) ?_
    have ht := totalExponent_shift hn 0 spec.mantissaBits
    rw [zero_sub] at ht
    rw [ht]
    simp only [Format.targetExponent, totalExponent]
    omega

theorem representable_natCast {spec : Format} {n : ℕ} (h : n < 2 ^ spec.mantissaBits) :
    Representable spec n := by
  refine OnGrid.coarsen ⟨n, by simp⟩ (?_ : quantum spec n ≤ 0)
  have hm : spec.minExponent ≤ 0 := minExponent_nonpos
  rcases Nat.eq_zero_or_pos n with rfl | hn
  case inl =>
    have : 1 ≤ spec.mantissaBits := mantissaBits_pos
    simp [quantum, Format.targetExponent]
    omega
  case inr =>
    have hl := Nat.log_lt_of_lt_pow hn.ne' h
    simp only [quantum, Format.targetExponent, Nat.abs_cast, Int.log_natCast]
    omega

theorem unpack_one : Stored.unpack (Float.ofBits 0x3FF0000000000000) =
    .finite .positive (2 ^ 52) (-52) (by decide) := by
  rfl

theorem isFinite_one : IsFinite (Float.ofBits 0x3FF0000000000000) := by
  rw [IsFinite, unpack_one]
  rfl

theorem rat_one : rat (Float.ofBits 0x3FF0000000000000) = 1 := by
  rw [rat, unpack_one, toRat, signed]
  norm_num

theorem val_ofNat (n : ℕ) :
    IsNumber (Float.ofNat n) ∧ val (Float.ofNat n) = ofRat .binary64 n := by
  rw [Float.ofNat]
  change IsNumber (Float.ofScientific n false 0) ∧ val (Float.ofScientific n false 0) = _
  unfold Float.ofScientific
  split
  case isFalse => exact roundsTo_repack (by decide) (ofScientific_roundsTo n)
  case isTrue h =>
    have hn : n.toUInt64.toNat = n := by
      simp [Nat.mod_eq_of_lt (show n < 18446744073709551616 by omega)]
    have hu : RoundsTo .binary64 (UnpackedFloat.ofUInt64 .binary64 n.toUInt64) (n : ℚ) := by
      have hr : Representable .binary64 n := representable_natCast h.1
      have hz : RoundsTo .binary64 (UnpackedFloat.ofUInt64 .binary64 n.toUInt64) _ :=
        normalize_roundsTo n.toUInt64.toNat 0 .positive
      rwa [hn, zpow_zero, mul_one, Int.cast_natCast, hr.rounded_eq] at hz
    have hl : |(n : ℚ)| < limit .binary64 := by
      rw [Nat.abs_cast]
      calc (n : ℚ)
        _ < 2 ^ 53          := by exact_mod_cast h.1
        _ ≤ limit .binary64 := pow_le_pow_right₀ (by norm_num) (by decide)
    have ⟨hf, hv⟩ := repack_exact (by decide) hu hl
    have hf' : IsFinite n.toUInt64.toFloat := hf
    have hm := hf'.mul isFinite_one
    rw [rat_one, mul_one, show rat n.toUInt64.toFloat = n from hv] at hm
    exact hm

end
end Ieee
