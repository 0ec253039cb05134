import SafetyIsland.Ieee.Unpacked

namespace Ieee

open Float.Model (Format UnpackedFloat totalExponent)
open Float.Model.UnpackedFloat

section

variable {spec : Format}

theorem magnitude_lt_of_exponent_lt {s₁ s₂ : Sign} {m₁ m₂ : ℕ} {e₁ e₂ : ℤ} {p₁ : 0 < m₁}
    {p₂ : 0 < m₂} (h₁ : Canonical spec (.finite s₁ m₁ e₁ p₁))
    (h₂ : Canonical spec (.finite s₂ m₂ e₂ p₂)) (he : e₁ < e₂) :
    (m₁ : ℚ) * 2 ^ e₁ < m₂ * 2 ^ e₂ := by
  have hlt := h₁.mantissa_lt
  have hle := h₂.le_mantissa (lt_of_le_of_lt h₁.minExponent_le he)
  have hp := two_zpow_pos e₁
  obtain ⟨k, rfl⟩ : ∃ k : ℕ, e₂ = e₁ + (k + 1 : ℕ) := ⟨(e₂ - e₁ - 1).toNat, by omega⟩
  have hm : m₁ < m₂ * 2 ^ (k + 1) := by
    calc m₁
      _ < 2 ^ spec.mantissaBits                          := hlt
      _ = 2 ^ spec.mantissaBitsWithoutImplicit * 2       := by rw [Format.mantissaBits]; ring
      _ ≤ m₂ * 2 ^ (k + 1)                               := by
        apply Nat.mul_le_mul hle
        calc 2 = 2 ^ 1       := rfl
             _ ≤ 2 ^ (k + 1) := Nat.pow_le_pow_right (by decide) (by omega)
  rw [zpow_add₀ (by norm_num), zpow_natCast, mul_comm (2 ^ e₁), ← mul_assoc]
  gcongr
  exact_mod_cast hm

theorem compare_magnitude {s₁ s₂ : Sign} {m₁ m₂ : ℕ} {e₁ e₂ : ℤ} {p₁ : 0 < m₁}
    {p₂ : 0 < m₂} (h₁ : Canonical spec (.finite s₁ m₁ e₁ p₁))
    (h₂ : Canonical spec (.finite s₂ m₂ e₂ p₂)) :
    (compare e₁ e₂).then (compare m₁ m₂) = cmp ((m₁ : ℚ) * 2 ^ e₁) (m₂ * 2 ^ e₂) := by
  rcases lt_trichotomy e₁ e₂ with h | rfl | h
  case inl =>
    rw [Int.compare_eq_lt.mpr h, (cmp_eq_lt_iff _ _).mpr (magnitude_lt_of_exponent_lt h₁ h₂ h)]
    rfl
  case inr.inl =>
    have hp := two_zpow_pos e₁
    rcases lt_trichotomy m₁ m₂ with hm | rfl | hm
    case inl =>
      have : (m₁ : ℚ) * 2 ^ e₁ < m₂ * 2 ^ e₁ := by gcongr
      rw [(cmp_eq_lt_iff _ _).mpr this, Nat.compare_eq_lt.mpr hm]
      simp
    case inr.inl => simp
    case inr.inr =>
      have : (m₂ : ℚ) * 2 ^ e₁ < m₁ * 2 ^ e₁ := by gcongr
      rw [(cmp_eq_gt_iff _ _).mpr this, Nat.compare_eq_gt.mpr hm]
      simp
  case inr.inr =>
    rw [Int.compare_eq_gt.mpr h, (cmp_eq_gt_iff _ _).mpr (magnitude_lt_of_exponent_lt h₂ h₁ h)]
    rfl

theorem coe_lt_top (x : ℚ) : (x : Ext) < ⊤ :=
  WithBot.coe_lt_coe.mpr (WithTop.coe_lt_top x)

theorem bot_lt_coe (x : ℚ) : (⊥ : Ext) < x :=
  WithBot.bot_lt_coe _

theorem cmp_coe (x y : ℚ) : cmp (x : Ext) (y : Ext) = cmp x y := by
  have h : StrictMono (fun q : ℚ => (q : Ext)) := fun _ _ h => WithBotTop.coe_lt_coe.mpr h
  exact h.cmp_map_eq x y

theorem lt_eq_cmp {x y : Ext} (h : x < y) : Ordering.lt = cmp x y :=
  ((cmp_eq_lt_iff x y).mpr h).symm

theorem gt_eq_cmp {x y : Ext} (h : y < x) : Ordering.gt = cmp x y :=
  ((cmp_eq_gt_iff x y).mpr h).symm

theorem finite_pos {m : ℕ} (h : 0 < m) (e : ℤ) : (0 : ℚ) < m * 2 ^ e :=
  mul_pos (by exact_mod_cast h) (two_zpow_pos e)

theorem value_of_not_infinity {u : UnpackedFloat} (h : ∀ s, u = .infinity s → False) :
    value u = toRat u := by
  cases u
  case infinity s => exact (h s rfl).elim
  all_goals rfl

@[simp]
theorem value_zero (s : Sign) : value (.zero s) = ((0 : ℚ) : Ext) :=
  rfl

@[simp]
theorem value_finite (s : Sign) (m : ℕ) (e : ℤ) (h : 0 < m) :
    value (.finite s m e h) = (signed s (m * 2 ^ e) : ℚ) :=
  rfl

theorem compare_eq {u v : UnpackedFloat} (hu : Canonical spec u) (hv : Canonical spec v)
    (nu : u.isNaN = false) (nv : v.isNaN = false) :
    u.compare v = some (cmp (value u) (value v)) := by
  fun_cases UnpackedFloat.compare u v
  case case1 => simp [isNaN] at nu
  case case2 => simp [isNaN] at nv
  case case3 s₁ s₂ =>
    cases s₁ <;> cases s₂
    case negative.positive => exact congrArg some <| lt_eq_cmp bot_lt_top
    case positive.negative => exact congrArg some <| gt_eq_cmp bot_lt_top
    all_goals exact congrArg some (cmp_self_eq_eq _).symm
  case case4 h =>
    rw [value_of_not_infinity h]
    exact congrArg some <| gt_eq_cmp (coe_lt_top _)
  case case5 h =>
    rw [value_of_not_infinity h]
    exact congrArg some <| lt_eq_cmp (bot_lt_coe _)
  case case6 h =>
    rw [value_of_not_infinity h]
    exact congrArg some <| lt_eq_cmp (coe_lt_top _)
  case case7 h =>
    rw [value_of_not_infinity h]
    exact congrArg some <| gt_eq_cmp (bot_lt_coe _)
  case case8 h _ =>
    exact congrArg some <| gt_eq_cmp <| WithBotTop.coe_lt_coe.mpr (finite_pos h _)
  case case9 h _ =>
    exact congrArg some <| lt_eq_cmp <| WithBotTop.coe_lt_coe.mpr (neg_neg_of_pos (finite_pos h _))
  case case10 h =>
    exact congrArg some <| lt_eq_cmp <| WithBotTop.coe_lt_coe.mpr (finite_pos h _)
  case case11 h =>
    exact congrArg some <| gt_eq_cmp <| WithBotTop.coe_lt_coe.mpr (neg_neg_of_pos (finite_pos h _))
  case case12 => exact congrArg some (cmp_self_eq_eq _).symm
  case case13 =>
    rw [compare_magnitude hu hv, value_finite, value_finite, cmp_coe, cmp_swap]
    have hneg : StrictAnti (fun x : ℚ => -x) := fun _ _ h => neg_lt_neg h
    exact congrArg some (hneg.cmp_map_eq _ _).symm
  case case14 h₁ _ _ h₂ =>
    exact congrArg some <| lt_eq_cmp <| WithBotTop.coe_lt_coe.mpr <|
      (neg_neg_of_pos (finite_pos h₁ _)).trans (finite_pos h₂ _)
  case case15 h₁ _ _ h₂ =>
    exact congrArg some <| gt_eq_cmp <| WithBotTop.coe_lt_coe.mpr <|
      (neg_neg_of_pos (finite_pos h₂ _)).trans (finite_pos h₁ _)
  case case16 =>
    rw [compare_magnitude hu hv, value_finite, value_finite, cmp_coe]
    rfl

theorem le_iff_unpacked {u v : UnpackedFloat} (hu : Canonical spec u) (hv : Canonical spec v) :
    u.le v = true ↔ u.isNaN = false ∧ v.isNaN = false ∧ value u ≤ value v := by
  by_cases nu : u.isNaN = false
  case neg => cases u <;> simp_all [isNaN, UnpackedFloat.le, UnpackedFloat.compare]
  by_cases nv : v.isNaN = false
  case neg => cases u <;> cases v <;> simp_all [isNaN, UnpackedFloat.le, UnpackedFloat.compare]
  simp only [UnpackedFloat.le, compare_eq hu hv nu nv, nu, nv, true_and, Option.any_some]
  rw [Ordering.isLE_iff_ne_gt, cmp_eq_gt_iff, not_lt]

theorem lt_iff_unpacked {u v : UnpackedFloat} (hu : Canonical spec u) (hv : Canonical spec v) :
    u.lt v = true ↔ u.isNaN = false ∧ v.isNaN = false ∧ value u < value v := by
  by_cases nu : u.isNaN = false
  case neg => cases u <;> simp_all [isNaN, UnpackedFloat.lt, UnpackedFloat.compare]
  by_cases nv : v.isNaN = false
  case neg => cases u <;> cases v <;> simp_all [isNaN, UnpackedFloat.lt, UnpackedFloat.compare]
  simp [UnpackedFloat.lt, compare_eq hu hv nu nv, nu, nv]

-- Storing a float and reading it back, which is where overflow happens.
def repack (spec : Format) (u : UnpackedFloat) : UnpackedFloat :=
  unpack spec (pack spec u)

theorem zero_ne_neg_one {n : ℕ} (h : 0 < n) : 0#n ≠ -1#n := by
  intro hc
  have := congrArg BitVec.toNat hc
  have : 1 < 2 ^ n := Nat.one_lt_two_pow h.ne'
  simp [BitVec.neg_one_eq_allOnes] at *
  omega

@[simp]
theorem repack_notANumber : repack spec .notANumber = .notANumber := by
  simp [repack, pack]

@[simp]
theorem repack_infinity (s : Sign) : repack spec (.infinity s) = .infinity s := by
  simp [repack, pack, packedInfinity, unpack]

@[simp]
theorem repack_zero (s : Sign) : repack spec (.zero s) = .zero s := by
  simp [repack, pack, packedZero, unpack, zero_ne_neg_one spec.he]

-- The code of the exponent, which the largest code and beyond turn into an infinity.
def biasedExponent (spec : Format) (e : ℤ) : ℕ :=
  (e + spec.exponentBias + spec.mantissaBitsWithoutImplicit).toNat

theorem repack_overflow {s : Sign} {m : ℕ} {e : ℤ} {h : 0 < m}
    (ho : 2 ^ spec.exponentBits ≤ biasedExponent spec e + 1) :
    repack spec (.finite s m e h) = .infinity s := by
  rw [← @repack_infinity spec, repack, repack, pack]
  rw [biasedExponent] at ho
  simp only [ho, if_true, pack]

theorem minExponent_eq : spec.minExponent =
    1 - (spec.exponentBias + spec.mantissaBitsWithoutImplicit : ℤ) := by
  have : 1 ≤ 2 ^ (spec.exponentBits - 1) := Nat.one_le_two_pow
  simp only [Format.minExponent, Format.exponentBias, Format.mantissaBits]
  push_cast [this]
  ring

theorem ofNat_ne_neg_one {n b : ℕ} (h : b + 1 < 2 ^ n) : BitVec.ofNat n b ≠ -1#n := by
  intro hc
  have := congrArg BitVec.toNat hc
  rw [BitVec.neg_one_eq_allOnes, BitVec.toNat_ofNat, BitVec.toNat_allOnes,
    Nat.mod_eq_of_lt (by omega)] at this
  omega

theorem ofNat_ne_zero {n b : ℕ} (h₀ : 0 < b) (h : b < 2 ^ n) : BitVec.ofNat n b ≠ 0#n := by
  intro hc
  have := congrArg BitVec.toNat hc
  rw [BitVec.toNat_ofNat, BitVec.toNat_ofNat, Nat.mod_eq_of_lt h, Nat.zero_mod] at this
  omega

theorem toNat_implicit {n m : ℕ} (hl : 2 ^ n ≤ m) (hu : m < 2 ^ (n + 1)) :
    (1#1 ++ BitVec.ofNat n m).toNat = m := by
  have hm : m % 2 ^ n = m - 2 ^ n := by
    rw [Nat.mod_eq_sub_mod hl, Nat.mod_eq_of_lt (by rw [pow_succ] at hu; omega)]
  have hs : m - 2 ^ n < 2 ^ n := by rw [pow_succ] at hu; omega
  rw [BitVec.toNat_append, BitVec.toNat_ofNat, BitVec.toNat_ofNat, hm,
    ← Nat.shiftLeft_add_eq_or_of_lt hs, Nat.shiftLeft_eq]
  omega

theorem unpack_normal {s : Sign} {b m : ℕ} (h : 0 < m) (hb₀ : 0 < b)
    (hb : b + 1 < 2 ^ spec.exponentBits) (hl : 2 ^ spec.mantissaBitsWithoutImplicit ≤ m)
    (hu : m < 2 ^ spec.mantissaBits) :
    unpack spec (packComponents spec s (BitVec.ofNat _ b) (BitVec.ofNat _ m)) =
      .finite s m (b - (spec.exponentBias + spec.mantissaBitsWithoutImplicit)) h := by
  rw [Format.mantissaBits, add_comm] at hu
  simp only [unpack, unpackExponent_packComponents, unpackMantissa_packComponents,
    unpackSign_packComponents, Sign.ofBitVec_toBitVec, ofNat_ne_neg_one hb,
    ofNat_ne_zero hb₀ (Nat.lt_of_succ_lt hb), if_false, toNat_implicit hl hu, BitVec.toNat_ofNat,
    Nat.mod_eq_of_lt (Nat.lt_of_succ_lt hb)]

theorem unpack_subnormal {s : Sign} {m : ℕ} (h : 0 < m)
    (hu : m < 2 ^ spec.mantissaBitsWithoutImplicit) :
    unpack spec (packComponents spec s 0#_ (BitVec.ofNat _ m)) =
      .finite s m spec.minExponent h := by
  simp only [unpack, unpackExponent_packComponents, unpackMantissa_packComponents,
    unpackSign_packComponents, Sign.ofBitVec_toBitVec, zero_ne_neg_one spec.he, if_false, if_true,
    ofNat_ne_zero h hu, dite_false, BitVec.toNat_ofNat, Nat.mod_eq_of_lt hu]
  simp [minExponent_eq]
  ring

theorem repack_of_lt {s : Sign} {m : ℕ} {e : ℤ} {h : 0 < m}
    (hc : Canonical spec (.finite s m e h))
    (ho : biasedExponent spec e + 1 < 2 ^ spec.exponentBits) :
    repack spec (.finite s m e h) = .finite s m e h := by
  have hlt := hc.mantissa_lt
  have hmin := hc.minExponent_le
  rw [repack, pack]
  rw [biasedExponent] at ho
  rw [minExponent_eq] at hmin
  simp only [ho.not_ge, if_false]
  split
  case isTrue hlog =>
    have hl : 2 ^ spec.mantissaBitsWithoutImplicit ≤ m := by
      have := Nat.log2_self_le h.ne'
      rwa [show m.log2 = spec.mantissaBitsWithoutImplicit by
        simp only [Format.mantissaBits] at hlog; omega] at this
    rw [unpack_normal h (by omega) ho hl hlt]
    congr
    omega
  case isFalse hlog =>
    have hl : m < 2 ^ spec.mantissaBitsWithoutImplicit := by
      rw [← Nat.log2_lt h.ne']
      have := log2_le_of_lt (by simp [Format.mantissaBits]) hlt
      simp only [Format.mantissaBits] at *
      omega
    have he : e = spec.minExponent := by
      by_contra hne
      have := hc.le_mantissa (lt_of_le_of_ne hc.minExponent_le (Ne.symm hne))
      omega
    rw [unpack_subnormal h hl, he]

theorem canonical_unpack (b : BitVec spec.numBits) : Canonical spec (unpack spec b) := by
  have hp := Nat.two_pow_pos spec.mantissaBitsWithoutImplicit
  unfold unpack
  simp only
  split
  case isTrue => split <;> trivial
  case isFalse h₁ =>
    split
    case isTrue h₂ =>
      split
      case isTrue => trivial
      case isFalse =>
        have hlt := (unpackMantissa b).isLt
        apply canonical_of_bounds
        case hm =>
          rw [Format.mantissaBits, add_comm, pow_succ]
          omega
        case he =>
          rw [h₂, minExponent_eq, BitVec.toNat_ofNat, Nat.zero_mod]
          omega
        case hn =>
          rw [h₂, minExponent_eq, BitVec.toNat_ofNat, Nat.zero_mod]
          omega
    case isFalse h₂ =>
      have hlt := (unpackMantissa b).isLt
      have hm : (1#1 ++ unpackMantissa b).toNat =
          2 ^ spec.mantissaBitsWithoutImplicit + (unpackMantissa b).toNat := by
        rw [BitVec.toNat_append, ← Nat.shiftLeft_add_eq_or_of_lt hlt, Nat.shiftLeft_eq]
        simp
      have he : 0 < (unpackExponent b).toNat := by
        rw [Nat.pos_iff_ne_zero]
        intro h₀
        exact h₂ (BitVec.eq_of_toNat_eq (by simpa using h₀))
      apply canonical_of_bounds <;> simp only [hm, minExponent_eq]
      case hm =>
        rw [Format.mantissaBits, add_comm 1, pow_succ]
        omega
      case he => omega
      case hn => omega

theorem biasedExponent_overflow (h₂ : 2 ≤ spec.exponentBits) {s : Sign} {m : ℕ} {e : ℤ} {h : 0 < m}
    (hc : Canonical spec (.finite s m e h)) :
    2 ^ spec.exponentBits ≤ biasedExponent spec e + 1 ↔ limit spec ≤ m * 2 ^ e := by
  have hmin := hc.minExponent_le
  have hlt := hc.mantissa_lt
  have hpow : 2 ^ spec.exponentBits = 2 * 2 ^ (spec.exponentBits - 1) := by
    rw [← pow_succ', Nat.sub_add_cancel (by omega)]
  have htwo : 2 ≤ 2 ^ (spec.exponentBits - 1) :=
    Nat.pow_le_pow_right (n := 2) (by decide) (by omega : 1 ≤ spec.exponentBits - 1)
  have hbias : spec.exponentBias = 2 ^ (spec.exponentBits - 1) - 1 := rfl
  have hiff : 2 ^ spec.exponentBits ≤ biasedExponent spec e + 1 ↔
      ((2 ^ (spec.exponentBits - 1) : ℕ) : ℤ) ≤ e + spec.mantissaBitsWithoutImplicit := by
    rw [minExponent_eq] at hmin
    rw [biasedExponent]
    omega
  rw [hiff, limit, ← zpow_natCast (2 : ℚ) (2 ^ _)]
  generalize hk : ((2 ^ (spec.exponentBits - 1) : ℕ) : ℤ) = k at *
  have hp := two_zpow_pos e
  constructor
  case mp =>
    intro hle
    have hl := hc.le_mantissa (by rw [minExponent_eq]; omega)
    calc (2 : ℚ) ^ k
      _ ≤ 2 ^ (spec.mantissaBitsWithoutImplicit + e : ℤ) :=
        zpow_le_zpow_right₀ (by norm_num) (by omega)
      _ = 2 ^ spec.mantissaBitsWithoutImplicit * 2 ^ e := by
        rw [zpow_add₀ (by norm_num), zpow_natCast]
      _ ≤ m * 2 ^ e := by
        gcongr
        exact_mod_cast hl
  case mpr =>
    intro hle
    by_contra hcon
    have : (m : ℚ) * 2 ^ e < 2 ^ k := by
      calc (m : ℚ) * 2 ^ e
        _ < 2 ^ spec.mantissaBits * 2 ^ e := by
          gcongr
          exact_mod_cast hlt
        _ = 2 ^ (spec.mantissaBits + e : ℤ) := by rw [zpow_add₀ (by norm_num), zpow_natCast]
        _ ≤ 2 ^ k := by
          apply zpow_le_zpow_right₀ (by norm_num)
          simp only [Format.mantissaBits]
          push_cast
          omega
    linarith

theorem abs_signed (s : Sign) (x : ℚ) : |signed s x| = |x| := by
  cases s <;> simp [signed]

theorem unpack_lt_limit (h₂ : 2 ≤ spec.exponentBits) (b : BitVec spec.numBits) :
    |toRat (unpack spec b)| < limit spec := by
  have hc := canonical_unpack b
  have hpow : 4 ≤ 2 ^ spec.exponentBits := Nat.pow_le_pow_right (n := 2) (by decide) h₂
  have hcode : ∀ s m e h, unpack spec b = .finite s m e h →
      biasedExponent spec e + 1 < 2 ^ spec.exponentBits := by
    intro s m e h hu
    unfold unpack at hu
    simp only at hu
    split at hu
    case isTrue => split at hu <;> simp at hu
    case isFalse h₁ =>
      have hne : (unpackExponent b).toNat ≠ 2 ^ spec.exponentBits - 1 := fun hc => h₁ <|
        BitVec.eq_of_toNat_eq <| by rw [hc, BitVec.neg_one_eq_allOnes, BitVec.toNat_allOnes]
      have hlt := (unpackExponent b).isLt
      split at hu
      case isTrue h₂ =>
        split at hu
        case isTrue => simp at hu
        case isFalse =>
          injection hu with _ _ he
          simp only [h₂, BitVec.toNat_ofNat, Nat.zero_mod] at he
          rw [biasedExponent]
          omega
      case isFalse =>
        injection hu with _ _ he
        rw [biasedExponent]
        omega
  cases hu : unpack spec b
  case finite s m e h =>
    rw [hu] at hc
    have hlt := (not_congr (biasedExponent_overflow h₂ hc)).mp (not_le.mpr (hcode s m e h hu))
    rw [toRat, abs_signed, abs_of_pos (finite_pos h e)]
    exact not_le.mp hlt
  all_goals simpa [toRat] using limit_pos

theorem overflow_signed_of_le {s : Sign} {x : ℚ} (h : limit spec ≤ x) :
    overflow spec (signed s x) = value (.infinity s) := by
  have : 0 < limit spec := limit_pos
  cases s
  case positive => simp [overflow, signed, value, h]
  case negative =>
    rw [signed, overflow, if_neg (by linarith), if_pos (by linarith)]
    rfl

theorem value_repack (h₂ : 2 ≤ spec.exponentBits) {u : UnpackedFloat} (hc : Canonical spec u)
    (hf : u.isFinite = true) : value (repack spec u) = overflow spec (toRat u) := by
  have h₀ : overflow spec 0 = ((0 : ℚ) : Ext) :=
    overflow_of_abs_lt (by simpa using limit_pos)
  cases u
  case zero s => rw [repack_zero, value_zero]; exact h₀.symm
  case finite s m e h =>
    by_cases ho : 2 ^ spec.exponentBits ≤ biasedExponent spec e + 1
    case pos =>
      rw [repack_overflow ho, toRat, overflow_signed_of_le]
      exact (biasedExponent_overflow h₂ hc).mp ho
    case neg =>
      have hlt := (not_congr (biasedExponent_overflow h₂ hc)).mp ho
      rw [repack_of_lt hc (not_le.mp ho), value_finite, toRat, overflow_of_abs_lt]
      rw [abs_signed, abs_of_pos (finite_pos h e)]
      exact not_le.mp hlt
  all_goals simp [isFinite] at hf

theorem isNaN_repack {u : UnpackedFloat} (hc : Canonical spec u) :
    (repack spec u).isNaN = u.isNaN := by
  cases u
  case finite s m e h =>
    by_cases ho : 2 ^ spec.exponentBits ≤ biasedExponent spec e + 1
    case pos => rw [repack_overflow ho]; rfl
    case neg => rw [repack_of_lt hc (not_le.mp ho)]
  all_goals simp [isNaN]

theorem roundsTo_repack (h₂ : 2 ≤ spec.exponentBits) {u : UnpackedFloat} {x : ℚ}
    (h : RoundsTo spec u (rounded spec x)) :
    (repack spec u).isNaN = false ∧ value (repack spec u) = ofRat spec x := by
  rw [isNaN_repack h.canonical, value_repack h₂ h.canonical h.finite, h.value]
  refine ⟨?_, rfl⟩
  have := h.finite
  cases u <;> simp_all [isFinite, isNaN]

end
end Ieee
