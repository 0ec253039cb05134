import SafetyIsland.Ieee.Packed

namespace Ieee

open Float.Model (Format UnpackedFloat totalExponent)
open Float.Model.UnpackedFloat

section

variable {spec : Format} {u v : UnpackedFloat}

theorem Canonical.roundsTo (hc : Canonical spec u) (hf : u.isFinite = true) :
    RoundsTo spec u (rounded spec (toRat u)) :=
  ⟨hf, hc, hc.representable.rounded_eq.symm⟩

theorem Canonical.neg (hc : Canonical spec u) : Canonical spec u.neg := by
  cases u <;> trivial

@[simp]
theorem toRat_neg (u : UnpackedFloat) : toRat u.neg = -toRat u := by
  rcases u with _ | _ | _ | ⟨_ | _, m, e, h⟩
  case finite.negative => exact (neg_neg ((m : ℚ) * 2 ^ e)).symm
  case finite.positive => rfl
  all_goals exact neg_zero.symm

@[simp]
theorem isFinite_neg (u : UnpackedFloat) : u.neg.isFinite = u.isFinite := by
  cases u <;> rfl

@[simp]
theorem toRat_abs (u : UnpackedFloat) : toRat u.abs = |toRat u| := by
  rcases u with _ | _ | _ | ⟨_ | _, m, e, h⟩
  case finite.negative => exact (abs_neg ((m : ℚ) * 2 ^ e) ▸ abs_of_pos (finite_pos h e)).symm
  case finite.positive => exact (abs_of_pos (finite_pos h e)).symm
  all_goals exact abs_zero.symm

@[simp]
theorem isFinite_abs (u : UnpackedFloat) : u.abs.isFinite = u.isFinite := by
  cases u <;> rfl

theorem Canonical.abs (hc : Canonical spec u) : Canonical spec u.abs := by
  cases u <;> trivial

theorem aligned_value (m : ℕ) {e t : ℤ} (h : t ≤ e) :
    ((decreaseExponent m e t).1 : ℚ) * 2 ^ t = m * 2 ^ e := by
  have ht : e - (e - t).toNat = t := by omega
  have := shift_value m e (e - t).toNat
  rw [ht] at this
  rwa [decreaseExponent_eq]

theorem apply_value (s : Sign) (n : ℕ) (t : ℤ) :
    (s.apply n : ℚ) * 2 ^ t = signed s (n * 2 ^ t) := by
  cases s <;> simp [Sign.apply, signed]

theorem aligned_apply (s : Sign) (m : ℕ) {e t : ℤ} (h : t ≤ e) :
    (s.apply (decreaseExponent m e t).1 : ℚ) * 2 ^ t = signed s (m * 2 ^ e) := by
  rw [apply_value, aligned_value m h]

theorem zero_roundsTo (s : Sign) : RoundsTo spec (.zero s) (rounded spec 0) :=
  ⟨rfl, trivial, rounded_zero.symm⟩

theorem add_roundsTo (hu : Canonical spec u) (hv : Canonical spec v) (fu : u.isFinite = true)
    (fv : v.isFinite = true) : RoundsTo spec (add spec u v) (rounded spec (toRat u + toRat v)) := by
  rcases u with _ | _ | s₁ | ⟨s₁, m₁, e₁, p₁⟩ <;> rcases v with _ | _ | s₂ | ⟨s₂, m₂, e₂, p₂⟩
  case zero.zero =>
    rw [show toRat (.zero s₁) + toRat (.zero s₂) = 0 from add_zero 0, add]
    split <;> exact zero_roundsTo _
  case zero.finite =>
    rw [show toRat (.zero s₁) = 0 from rfl, zero_add]
    exact hv.roundsTo fv
  case finite.zero =>
    rw [show toRat (.zero s₂) = 0 from rfl, add_zero]
    exact hu.roundsTo fu
  case finite.finite =>
    rw [toRat, toRat, ← aligned_apply s₁ m₁ (min_le_left e₁ e₂),
      ← aligned_apply s₂ m₂ (min_le_right e₁ e₂), ← add_mul, ← Int.cast_add]
    exact normalize_roundsTo _ _ .positive
  all_goals first | exact absurd fu Bool.false_ne_true | exact absurd fv Bool.false_ne_true

theorem sub_roundsTo (hu : Canonical spec u) (hv : Canonical spec v) (fu : u.isFinite = true)
    (fv : v.isFinite = true) : RoundsTo spec (sub spec u v) (rounded spec (toRat u - toRat v)) := by
  rcases u with _ | _ | s₁ | ⟨s₁, m₁, e₁, p₁⟩ <;> rcases v with _ | _ | s₂ | ⟨s₂, m₂, e₂, p₂⟩
  case zero.zero =>
    rw [show toRat (.zero s₁) - toRat (.zero s₂) = 0 from sub_zero 0, sub]
    split <;> exact zero_roundsTo _
  case zero.finite =>
    rw [show toRat (.zero s₁) = 0 from rfl, zero_sub, ← toRat_neg]
    exact hv.neg.roundsTo fv
  case finite.zero =>
    rw [show toRat (.zero s₂) = 0 from rfl, sub_zero]
    exact hu.roundsTo fu
  case finite.finite =>
    rw [toRat, toRat, ← aligned_apply s₁ m₁ (min_le_left e₁ e₂),
      ← aligned_apply s₂ m₂ (min_le_right e₁ e₂), ← sub_mul, ← Int.cast_sub]
    exact normalize_roundsTo _ _ .positive
  all_goals first | exact absurd fu Bool.false_ne_true | exact absurd fv Bool.false_ne_true

theorem signed_mul (s₁ s₂ : Sign) (x y : ℚ) :
    signed (s₁ * s₂) (x * y) = signed s₁ x * signed s₂ y := by
  cases s₁ <;> cases s₂
  case negative.negative => exact (neg_mul_neg x y).symm
  case negative.positive => exact (neg_mul x y).symm
  case positive.negative => exact (mul_neg x y).symm
  case positive.positive => rfl

theorem minExponent_nonpos : spec.minExponent ≤ 0 := by
  have h₁ : 1 ≤ 2 ^ (spec.exponentBits - 1) := Nat.one_le_two_pow
  have h₂ := spec.hm
  simp only [Format.minExponent, Format.mantissaBits]
  push_cast
  zify at h₁
  omega

theorem mul_exponent_le {s₁ s₂ : Sign} {m₁ m₂ : ℕ} {e₁ e₂ : ℤ} {p₁ : 0 < m₁} {p₂ : 0 < m₂}
    (h₁ : Canonical spec (.finite s₁ m₁ e₁ p₁)) (h₂ : Canonical spec (.finite s₂ m₂ e₂ p₂)) :
    e₁ + e₂ ≤ spec.targetExponent (totalExponent (m₁ * m₂) (e₁ + e₂)) := by
  have hp : m₁ * m₂ ≠ 0 := (Nat.mul_pos p₁ p₂).ne'
  simp only [Format.targetExponent, totalExponent, Format.mantissaBits]
  rcases h₁.minExponent_le.lt_or_eq with hlt₁ | heq₁
  case inl =>
    have := (Nat.le_log2 hp).mpr ((h₁.le_mantissa hlt₁).trans (Nat.le_mul_of_pos_right m₁ p₂))
    omega
  rcases h₂.minExponent_le.lt_or_eq with hlt₂ | heq₂
  case inl =>
    have := (Nat.le_log2 hp).mpr ((h₂.le_mantissa hlt₂).trans (Nat.le_mul_of_pos_left m₂ p₁))
    omega
  case inr =>
    have : spec.minExponent ≤ 0 := minExponent_nonpos
    omega

theorem mul_roundsTo (hu : Canonical spec u) (hv : Canonical spec v) (fu : u.isFinite = true)
    (fv : v.isFinite = true) : RoundsTo spec (mul spec u v) (rounded spec (toRat u * toRat v)) := by
  rcases u with _ | _ | s₁ | ⟨s₁, m₁, e₁, p₁⟩ <;> rcases v with _ | _ | s₂ | ⟨s₂, m₂, e₂, p₂⟩
  case zero.zero => exact (mul_zero (0 : ℚ)).symm ▸ zero_roundsTo _
  case zero.finite => exact (zero_mul (toRat (.finite s₂ m₂ e₂ p₂))).symm ▸ zero_roundsTo _
  case finite.zero => exact (mul_zero (toRat (.finite s₁ m₁ e₁ p₁))).symm ▸ zero_roundsTo _
  case finite.finite =>
    have hx : (m₁ : ℚ) * 2 ^ e₁ * (m₂ * 2 ^ e₂) = (m₁ * m₂ : ℕ) * 2 ^ (e₁ + e₂) := by
      rw [zpow_add₀ (by norm_num)]
      push_cast
      ring
    rw [toRat, toRat, ← signed_mul, hx, ← signed_rounded]
    exact roundWithAccuracy_roundsTo (Nat.mul_pos p₁ p₂) (.exact _) (mul_exponent_le hu hv)
  all_goals first | exact absurd fu Bool.false_ne_true | exact absurd fv Bool.false_ne_true

-- The value moved to another format.
def recast (spec : Format) : UnpackedFloat → UnpackedFloat
  | .finite s m e _ => UnpackedFloat.round spec s m e
  | u => u

theorem recast_roundsTo (fu : u.isFinite = true) :
    RoundsTo spec (recast spec u) (rounded spec (toRat u)) := by
  cases u
  case zero s => exact zero_roundsTo s
  case finite s m e h => exact round_roundsTo s h e
  all_goals exact absurd fu Bool.false_ne_true

theorem recast_of_not_finite (fu : u.isFinite = false) : recast spec u = u := by
  cases u
  case finite => exact absurd fu Bool.noConfusion
  all_goals rfl

end
end Ieee
