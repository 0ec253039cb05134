import SafetyIsland.Ieee.Rounding

namespace Ieee

open Float.Model (Format UnpackedFloat totalExponent)
open Float.Model.UnpackedFloat

-- The exact number that a mantissa with its round bit and sticky bit stands for.
structure Approx (em : ExtendedMantissa) (x : ℚ) : Prop where
  le     : em.mantissa ≤ x
  lt     : x < em.mantissa + 1
  round  : em.roundBit = true ↔ em.mantissa + 1 / 2 ≤ x
  sticky : em.stickyBit = true ↔ x ≠ em.mantissa ∧ x ≠ em.mantissa + 1 / 2

namespace Approx

variable {em : ExtendedMantissa} {x : ℚ}

theorem exact (m : ℕ) : Approx (.ofMantissaAndAccuracy m .exact) m where
  le     := le_rfl
  lt     := by simp [ExtendedMantissa.ofMantissaAndAccuracy]
  round  := by norm_num [ExtendedMantissa.ofMantissaAndAccuracy]
  sticky := by simp [ExtendedMantissa.ofMantissaAndAccuracy]

theorem floor_eq (h : Approx em x) : ⌊x⌋ = em.mantissa :=
  Int.floor_eq_iff.mpr ⟨by exact_mod_cast h.le, by exact_mod_cast h.lt⟩

theorem shiftRightOne (h : Approx em x) : Approx em.shiftRightOne (x / 2) := by
  have hq : (em.mantissa : ℚ) = 2 * (em.mantissa / 2 : ℕ) + (em.mantissa % 2 : ℕ) := by
    exact_mod_cast (Nat.div_add_mod em.mantissa 2).symm
  have ⟨hl, hu, hr, hs⟩ := h
  rcases Nat.mod_two_eq_zero_or_one em.mantissa with hm | hm <;> rw [hm] at hq <;> push_cast at hq
  case inl =>
    refine ⟨?_, ?_, ?_, ?_⟩ <;> simp only [ExtendedMantissa.shiftRightOne, hm]
    case refine_1 => linarith
    case refine_2 => linarith
    case refine_3 => simpa using by linarith
    case refine_4 =>
      rw [Bool.or_eq_true, hr, hs]
      grind
  case inr =>
    refine ⟨?_, ?_, ?_, ?_⟩ <;> simp only [ExtendedMantissa.shiftRightOne, hm]
    case refine_1 => linarith
    case refine_2 => linarith
    case refine_3 => simpa using by linarith
    case refine_4 =>
      rw [Bool.or_eq_true, hr, hs]
      grind

theorem shiftRight (h : Approx em x) (n : ℕ) : Approx (em >>> n) (x / 2 ^ n) := by
  induction n
  case zero => simpa [HShiftRight.hShiftRight, Nat.repeat] using h
  case succ n ih =>
    have := ih.shiftRightOne
    rw [div_div, ← pow_succ] at this
    exact this

theorem roundedMantissa_eq (h : Approx em x) : (em.roundedMantissa : ℤ) = roundEven x := by
  have hf := h.floor_eq
  have ⟨hl, hu, hr, hs⟩ := h
  obtain ⟨m, r, s⟩ := em
  simp only at hl hu hr hs hf
  rw [roundEven, hf, Int.cast_natCast]
  cases r <;> cases s <;>
    simp [ExtendedMantissa.roundedMantissa, ExtendedMantissa.accuracy,
      Accuracy.roundToNearestEven] at hr hs ⊢
  case false.false => grind
  case false.true => grind
  case true.false =>
    have : x = m + 1 / 2 := by grind
    grind
  case true.true => grind

end Approx

-- The sign applied to a magnitude.
def signed : Sign → ℚ → ℚ
  | .positive, x => x
  | .negative, x => -x

-- The rational number of a finite float, and 0 for the others.
def toRat : UnpackedFloat → ℚ
  | .finite s m e _ => signed s (m * 2 ^ e)
  | _ => 0

-- The number of a float that is not NaN.
def value : UnpackedFloat → Ext
  | .infinity .positive => ⊤
  | .infinity .negative => ⊥
  | u => toRat u

-- The exponent is the one that the format wants for the size of the number.
def Canonical (spec : Format) : UnpackedFloat → Prop
  | .finite _ m e _ => e = spec.targetExponent (totalExponent m e)
  | _ => True

section

variable {spec : Format}

theorem signed_rounded (s : Sign) (x : ℚ) :
    signed s (rounded spec x) = rounded spec (signed s x) := by
  cases s <;> simp [signed, rounded_neg]

theorem log_scaled {m : ℕ} {x : ℚ} (e : ℤ) (hm : 0 < m) (hl : m ≤ x) (hu : x < m + 1) :
    Int.log 2 (x * 2 ^ e) = m.log2 + e := by
  have hx : 0 < x := lt_of_lt_of_le (by exact_mod_cast hm) hl
  have hp : 0 < x * 2 ^ e := mul_pos hx (two_zpow_pos e)
  have h₁ : (2 : ℚ) ^ m.log2 ≤ x :=
    le_trans (by exact_mod_cast Nat.log2_self_le hm.ne') hl
  have h₂ : x < 2 ^ (m.log2 + 1) :=
    lt_of_lt_of_le hu (by exact_mod_cast Nat.lt_log2_self)
  apply le_antisymm
  case a =>
    rw [← Int.lt_add_one_iff, ← Int.lt_zpow_iff_log_lt (by norm_num) hp, add_right_comm,
      zpow_add₀ (by norm_num)]
    have := two_zpow_pos e
    push_cast
    gcongr
    exact_mod_cast h₂
  case a =>
    rw [← Int.zpow_le_iff_le_log (by norm_num) hp, zpow_add₀ (by norm_num)]
    have := two_zpow_pos e
    push_cast
    gcongr
    exact_mod_cast h₁

theorem log2_le_of_lt {m n : ℕ} (hn : 0 < n) (h : m < 2 ^ n) : m.log2 + 1 ≤ n := by
  rcases Nat.eq_zero_or_pos m with rfl | hm
  case inl => simp; omega
  case inr => exact (Nat.log2_lt hm.ne').mpr h

theorem Canonical.mantissa_lt {s : Sign} {m : ℕ} {e : ℤ} {h : 0 < m}
    (hc : Canonical spec (.finite s m e h)) : m < 2 ^ spec.mantissaBits := by
  simp only [Canonical, Format.targetExponent, totalExponent] at hc
  calc m
    _ < 2 ^ (m.log2 + 1)      := Nat.lt_log2_self
    _ ≤ 2 ^ spec.mantissaBits := Nat.pow_le_pow_right (by decide) (by omega)

theorem Canonical.minExponent_le {s : Sign} {m : ℕ} {e : ℤ} {h : 0 < m}
    (hc : Canonical spec (.finite s m e h)) : spec.minExponent ≤ e := by
  simp only [Canonical, Format.targetExponent] at hc
  omega

theorem Canonical.le_mantissa {s : Sign} {m : ℕ} {e : ℤ} {h : 0 < m}
    (hc : Canonical spec (.finite s m e h)) (he : spec.minExponent < e) :
    2 ^ spec.mantissaBitsWithoutImplicit ≤ m := by
  simp only [Canonical, Format.targetExponent, totalExponent, Format.mantissaBits] at hc
  have hl : m.log2 = spec.mantissaBitsWithoutImplicit := by omega
  exact hl ▸ Nat.log2_self_le h.ne'

theorem canonical_of_bounds {s : Sign} {m : ℕ} {e : ℤ} {h : 0 < m}
    (hm : m < 2 ^ spec.mantissaBits) (he : spec.minExponent ≤ e)
    (hn : spec.minExponent < e → 2 ^ spec.mantissaBitsWithoutImplicit ≤ m) :
    Canonical spec (.finite s m e h) := by
  have hl := log2_le_of_lt (by simp [Format.mantissaBits]) hm
  simp only [Canonical, Format.targetExponent, totalExponent]
  rcases he.lt_or_eq with hlt | heq
  case inr => omega
  case inl =>
    have := (Nat.le_log2 h.ne').mpr (hn hlt)
    simp only [Format.mantissaBits] at hl ⊢
    omega

theorem Canonical.representable {u : UnpackedFloat} (hc : Canonical spec u) :
    Representable spec (toRat u) := by
  cases u
  case finite s m e h =>
    have hm : (0 : ℚ) < m := by exact_mod_cast h
    have hp : Representable spec (m * 2 ^ e) := by
      refine ⟨m, ?_⟩
      have hlog := log_scaled e h le_rfl (lt_add_one (m : ℚ))
      simp only [Canonical, totalExponent] at hc
      rw [quantum, abs_of_pos (mul_pos hm (two_zpow_pos e)), hlog]
      push_cast
      congr 2
      rw [hc]
      congr 1
      omega
    cases s
    case positive => exact hp
    case negative => exact hp.neg
  all_goals exact representable_zero

-- A float with a mantissa that may be 0.
def ofMantissa (s : Sign) (m : ℕ) (e : ℤ) : UnpackedFloat :=
  if h : m = 0 then .zero s else .finite s m e (Nat.pos_of_ne_zero h)

@[simp]
theorem toRat_ofMantissa (s : Sign) (m : ℕ) (e : ℤ) :
    toRat (ofMantissa s m e) = signed s (m * 2 ^ e) := by
  unfold ofMantissa
  split
  case isTrue h => cases s <;> simp [toRat, signed, h]
  case isFalse => rfl

@[simp]
theorem isFinite_ofMantissa (s : Sign) (m : ℕ) (e : ℤ) : (ofMantissa s m e).isFinite = true := by
  unfold ofMantissa
  split <;> rfl

theorem canonical_ofMantissa {s : Sign} {m : ℕ} {e : ℤ}
    (hm : m < 2 ^ spec.mantissaBits) (he : spec.minExponent ≤ e)
    (hn : spec.minExponent < e → 2 ^ spec.mantissaBitsWithoutImplicit ≤ m) :
    Canonical spec (ofMantissa s m e) := by
  unfold ofMantissa
  split
  case isTrue => trivial
  case isFalse => exact canonical_of_bounds hm he hn

-- The second shift of the model's rounding, which is needed when rounding up carried over.
def renormalize (spec : Format) (s : Sign) (r : ℕ) (e : ℤ) : UnpackedFloat :=
  let (em, e') := shiftToTargetExponent spec r e .exact
  ofMantissa s em.mantissa e'

theorem roundWithAccuracy_eq (s : Sign) (m : ℕ) (e : ℤ) (acc : Accuracy) :
    roundWithAccuracy spec s m e acc =
      renormalize spec s (shiftToTargetExponent spec m e acc).1.roundedMantissa
        (shiftToTargetExponent spec m e acc).2 :=
  rfl

theorem shiftToTargetExponent_of_le {r : ℕ} {e : ℤ} {acc : Accuracy}
    (h : spec.targetExponent (totalExponent r e) ≤ e) :
    shiftToTargetExponent spec r e acc = (.ofMantissaAndAccuracy r acc, e) := by
  have h₀ : (spec.targetExponent (totalExponent r e) - e).toNat = 0 := by omega
  simp [shiftToTargetExponent, shiftToExponent, h₀, HShiftRight.hShiftRight, Nat.repeat]

theorem renormalize_of_lt {s : Sign} {r : ℕ} {e : ℤ} (hr : r < 2 ^ spec.mantissaBits)
    (he : spec.minExponent ≤ e) : renormalize spec s r e = ofMantissa s r e := by
  have hl := log2_le_of_lt (by simp [Format.mantissaBits]) hr
  have ht : spec.targetExponent (totalExponent r e) ≤ e := by
    simp only [Format.targetExponent, totalExponent]
    omega
  rw [renormalize, shiftToTargetExponent_of_le ht]
  rfl

theorem renormalize_carry {s : Sign} {e : ℤ} (he : spec.minExponent ≤ e) :
    renormalize spec s (2 ^ spec.mantissaBits) e =
      ofMantissa s (2 ^ spec.mantissaBitsWithoutImplicit) (e + 1) := by
  have ht : spec.targetExponent (totalExponent (2 ^ spec.mantissaBits) e) = e + 1 := by
    simp only [Format.targetExponent, totalExponent, Nat.log2_two_pow]
    omega
  have hp : 2 ^ spec.mantissaBits / 2 = 2 ^ spec.mantissaBitsWithoutImplicit := by
    rw [Format.mantissaBits, pow_add]
    omega
  simp [renormalize, shiftToTargetExponent, shiftToExponent, ht, HShiftRight.hShiftRight,
    Nat.repeat, ExtendedMantissa.shiftRightOne, ExtendedMantissa.ofMantissaAndAccuracy, hp]

-- Rounding in the model is rounding to nearest, and its result is canonical.
structure RoundsTo (spec : Format) (u : UnpackedFloat) (x : ℚ) : Prop where
  finite    : u.isFinite = true
  canonical : Canonical spec u
  value     : toRat u = x

theorem renormalize_roundsTo {s : Sign} {r : ℕ} {e : ℤ} (hr : r ≤ 2 ^ spec.mantissaBits)
    (he : spec.minExponent ≤ e)
    (hn : spec.minExponent < e → 2 ^ spec.mantissaBitsWithoutImplicit ≤ r) :
    RoundsTo spec (renormalize spec s r e) (signed s (r * 2 ^ e)) := by
  rcases hr.lt_or_eq with hlt | rfl
  case inl =>
    rw [renormalize_of_lt hlt he]
    exact ⟨by simp, canonical_ofMantissa hlt he hn, by simp⟩
  case inr =>
    rw [renormalize_carry he]
    refine ⟨by simp, canonical_ofMantissa ?_ (by omega) (fun _ => le_rfl), ?_⟩
    case refine_1 => exact Nat.pow_lt_pow_right (by decide) (by simp [Format.mantissaBits])
    case refine_2 =>
      rw [toRat_ofMantissa, Format.mantissaBits, zpow_add₀ (by norm_num)]
      push_cast
      congr 1
      ring

@[simp]
theorem mantissa_ofMantissaAndAccuracy (m : ℕ) (acc : Accuracy) :
    (ExtendedMantissa.ofMantissaAndAccuracy m acc).mantissa = m := by
  unfold ExtendedMantissa.ofMantissaAndAccuracy
  split <;> rfl

theorem roundWithAccuracy_roundsTo {s : Sign} {m : ℕ} {e : ℤ} {acc : Accuracy} {x : ℚ}
    (hm : 0 < m) (ha : Approx (.ofMantissaAndAccuracy m acc) x)
    (he : e ≤ spec.targetExponent (totalExponent m e)) :
    RoundsTo spec (roundWithAccuracy spec s m e acc) (signed s (rounded spec (x * 2 ^ e))) := by
  have hl := ha.le
  have hu := ha.lt
  rw [mantissa_ofMantissaAndAccuracy] at hl hu
  have hx : 0 < x := lt_of_lt_of_le (by exact_mod_cast hm) hl
  have hlog := log_scaled e hm hl hu
  generalize ht : spec.targetExponent (totalExponent m e) = t at he
  obtain ⟨k, rfl⟩ : ∃ k : ℕ, t = e + k := ⟨(t - e).toNat, by omega⟩
  have hq : quantum spec (x * 2 ^ e) = e + k := by
    rw [quantum, abs_of_pos (mul_pos hx (two_zpow_pos e)), hlog, ← ht, totalExponent]
    congr 1
    omega
  -- the first shift leaves the mantissa of the exact number in units of the quantum
  have hs := ha.shiftRight k
  have hy : x * 2 ^ e / 2 ^ (e + k : ℤ) = x / 2 ^ k := by
    rw [zpow_add₀ (by norm_num), zpow_natCast]
    field_simp
  have hr : (((ExtendedMantissa.ofMantissaAndAccuracy m acc) >>> k).roundedMantissa : ℚ) *
      2 ^ (e + k : ℤ) = rounded spec (x * 2 ^ e) := by
    rw [rounded, hq, roundTo, hy, ← hs.roundedMantissa_eq]
    simp
  rw [roundWithAccuracy_eq, ← hr]
  have hk : (e + k - e : ℤ).toNat = k := by omega
  simp only [shiftToTargetExponent, shiftToExponent, ht, hk]
  simp only [Format.targetExponent, totalExponent] at ht
  have h2k : (0 : ℚ) < 2 ^ k := by positivity
  apply renormalize_roundsTo
  case hr =>
    have hb : x / 2 ^ k ≤ ((2 ^ spec.mantissaBits : ℕ) : ℤ) := by
      rw [div_le_iff₀ h2k]
      push_cast
      rw [← pow_add]
      calc x
        _ ≤ 2 ^ (m.log2 + 1)              := hu.le.trans (by exact_mod_cast Nat.lt_log2_self)
        _ ≤ 2 ^ (spec.mantissaBits + k)   := pow_le_pow_right₀ (by norm_num) (by omega)
    have := roundEven_mono hb
    rw [roundEven_intCast, ← hs.roundedMantissa_eq] at this
    exact_mod_cast this
  case he => omega
  case hn =>
    intro hlt
    have hlm : m.log2 = spec.mantissaBitsWithoutImplicit + k := by
      simp only [Format.mantissaBits] at ht
      omega
    have hb : ((2 ^ spec.mantissaBitsWithoutImplicit : ℕ) : ℤ) ≤ x / 2 ^ k := by
      rw [le_div_iff₀ h2k]
      push_cast
      rw [← pow_add, ← hlm]
      exact le_trans (by exact_mod_cast Nat.log2_self_le hm.ne') hl
    have := roundEven_mono hb
    rw [roundEven_intCast, ← hs.roundedMantissa_eq] at this
    exact_mod_cast this

theorem decreaseExponent_eq (m : ℕ) (e t : ℤ) :
    decreaseExponent m e t = (m * 2 ^ (e - t).toNat, e - (e - t).toNat) := by
  rw [decreaseExponent, Nat.shiftLeft_eq]

theorem totalExponent_shift {m : ℕ} (hm : 0 < m) (e : ℤ) (k : ℕ) :
    totalExponent (m * 2 ^ k) (e - k) = totalExponent m e := by
  have : (m * 2 ^ k).log2 = m.log2 + k := by
    rw [Nat.log2_eq_iff (by positivity), pow_add, add_right_comm, pow_add _ (m.log2 + 1)]
    have := Nat.two_pow_pos k
    exact ⟨Nat.mul_le_mul_right _ (Nat.log2_self_le hm.ne'),
      Nat.mul_lt_mul_of_pos_right Nat.lt_log2_self this⟩
  rw [totalExponent, totalExponent, this]
  push_cast
  ring

theorem shift_value (m : ℕ) (e : ℤ) (k : ℕ) :
    ((m * 2 ^ k : ℕ) : ℚ) * 2 ^ (e - k : ℤ) = m * 2 ^ e := by
  rw [zpow_sub₀ (by norm_num), zpow_natCast]
  push_cast
  field_simp

theorem round_roundsTo (s : Sign) {m : ℕ} (hm : 0 < m) (e : ℤ) :
    RoundsTo spec (UnpackedFloat.round spec s m e) (rounded spec (signed s (m * 2 ^ e))) := by
  simp only [UnpackedFloat.round, decreaseExponent_eq]
  generalize hk : (e - spec.targetExponent (totalExponent m e)).toNat = k
  have hle : e - k ≤ spec.targetExponent (totalExponent (m * 2 ^ k) (e - k)) := by
    rw [totalExponent_shift hm]
    omega
  rw [← shift_value m e k, ← signed_rounded]
  exact roundWithAccuracy_roundsTo (Nat.mul_pos hm (Nat.two_pow_pos k)) (.exact _) hle

theorem normalize_roundsTo (m : ℤ) (e : ℤ) (z : Sign) :
    RoundsTo spec (UnpackedFloat.normalize spec m e z) (rounded spec (m * 2 ^ e)) := by
  unfold UnpackedFloat.normalize
  rcases lt_trichotomy m 0 with h | rfl | h
  case inl =>
    rw [Int.compare_eq_lt.mpr h]
    have hm : (m : ℚ) * 2 ^ e = signed .negative ((-m).toNat * 2 ^ e) := by
      have : (((-m).toNat : ℕ) : ℚ) = -m := by
        exact_mod_cast Int.toNat_of_nonneg (by omega : 0 ≤ -m)
      rw [signed, this, neg_mul, neg_neg]
    rw [hm]
    exact round_roundsTo .negative (by omega) e
  case inr.inl =>
    refine ⟨rfl, trivial, ?_⟩
    simp [toRat, compare, compareOfLessAndEq]
  case inr.inr =>
    rw [Int.compare_eq_gt.mpr h]
    have hm : (m : ℚ) * 2 ^ e = signed .positive (m.toNat * 2 ^ e) := by
      have : ((m.toNat : ℕ) : ℚ) = m := by
        exact_mod_cast Int.toNat_of_nonneg h.le
      rw [signed, this]
    rw [hm]
    exact round_roundsTo .positive (by omega) e

end
end Ieee
