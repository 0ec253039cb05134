import Mathlib

namespace Ieee

open Float.Model (Format)

-- Round to the nearest integer, ties to the even neighbour.
def roundEven (x : ℚ) : ℤ :=
  if x - ⌊x⌋ < 1 / 2 then ⌊x⌋
  else if 1 / 2 < x - ⌊x⌋ then ⌊x⌋ + 1
  else if Even ⌊x⌋ then ⌊x⌋
  else ⌊x⌋ + 1

theorem roundEven_bounds (x : ℚ) : ⌊x⌋ ≤ roundEven x ∧ roundEven x ≤ ⌊x⌋ + 1 := by
  unfold roundEven
  split_ifs <;> omega

@[simp]
theorem roundEven_intCast (n : ℤ) : roundEven n = n := by
  simp [roundEven]

theorem roundEven_mono : Monotone roundEven := by
  intro x y h
  have hf : ⌊x⌋ ≤ ⌊y⌋ := Int.floor_mono h
  rcases hf.lt_or_eq with hlt | heq
  case inl =>
    have := (roundEven_bounds x).2
    have := (roundEven_bounds y).1
    omega
  case inr =>
    -- within one unit interval only the fractional part decides
    unfold roundEven
    rw [heq]
    split_ifs <;> first | omega | (exfalso; linarith)

theorem floor_neg_of_fract_ne {x : ℚ} (h : x - ⌊x⌋ ≠ 0) : ⌊-x⌋ = -⌊x⌋ - 1 := by
  have h₀ : (0 : ℚ) ≤ x - ⌊x⌋ := sub_nonneg.mpr <| Int.floor_le x
  have h₁ : 0 < x - ⌊x⌋ := lt_of_le_of_ne h₀ h.symm
  have h₂ : x < ⌊x⌋ + 1 := Int.lt_floor_add_one x
  rw [Int.floor_eq_iff]
  push_cast
  constructor <;> linarith

theorem roundEven_neg (x : ℚ) : roundEven (-x) = -roundEven x := by
  by_cases h : x - ⌊x⌋ = 0
  case pos =>
    have hx : x = ⌊x⌋ := by linarith
    rw [hx, ← Int.cast_neg, roundEven_intCast, roundEven_intCast]
  case neg =>
    have hf := floor_neg_of_fract_ne h
    unfold roundEven
    rw [hf]
    push_cast
    have hpar : Even (-⌊x⌋ - 1) ↔ ¬Even ⌊x⌋ := by
      simp
    simp only [hpar]
    split_ifs <;> first | omega | (exfalso; linarith)

-- Rounding to a multiple of `2 ^ k`.
def roundTo (k : ℤ) (x : ℚ) : ℚ :=
  roundEven (x / 2 ^ k) * 2 ^ k

def OnGrid (k : ℤ) (x : ℚ) : Prop :=
  ∃ n : ℤ, x = n * 2 ^ k

theorem two_zpow_pos (k : ℤ) : (0 : ℚ) < 2 ^ k :=
  zpow_pos (by norm_num) k

theorem OnGrid.coarsen {k k' : ℤ} {x : ℚ} (h : OnGrid k' x) (hk : k ≤ k') : OnGrid k x := by
  have ⟨n, hn⟩ := h
  refine ⟨n * 2 ^ (k' - k).toNat, ?_⟩
  have hz : (2 : ℚ) ^ k' = 2 ^ (k' - k).toNat * 2 ^ k := by
    rw [← zpow_natCast, ← zpow_add₀ (by norm_num)]
    congr 1
    omega
  rw [hn, hz]
  push_cast
  ring

theorem onGrid_zpow {k e : ℤ} (h : k ≤ e) : OnGrid k (2 ^ e) :=
  OnGrid.coarsen ⟨1, by simp⟩ h

theorem OnGrid.neg {k : ℤ} {x : ℚ} (h : OnGrid k x) : OnGrid k (-x) := by
  have ⟨n, hn⟩ := h
  exact ⟨-n, by rw [hn]; push_cast; ring⟩

theorem roundTo_mono (k : ℤ) : Monotone (roundTo k) := by
  intro x y h
  have hk := two_zpow_pos k
  have hd : x / 2 ^ k ≤ y / 2 ^ k := by gcongr
  have hr : (roundEven (x / 2 ^ k) : ℚ) ≤ roundEven (y / 2 ^ k) := by
    exact_mod_cast roundEven_mono hd
  unfold roundTo
  gcongr

theorem OnGrid.roundTo_eq {k : ℤ} {x : ℚ} (h : OnGrid k x) : roundTo k x = x := by
  have ⟨n, hn⟩ := h
  have hk := two_zpow_pos k
  rw [roundTo, hn, mul_div_assoc, div_self hk.ne', mul_one, roundEven_intCast]

theorem roundTo_neg (k : ℤ) (x : ℚ) : roundTo k (-x) = -roundTo k x := by
  rw [roundTo, roundTo, neg_div, roundEven_neg]
  push_cast
  ring

theorem OnGrid.le_roundTo {k : ℤ} {x z : ℚ} (hz : OnGrid k z) (h : z ≤ x) : z ≤ roundTo k x :=
  hz.roundTo_eq ▸ roundTo_mono k h

theorem OnGrid.roundTo_le {k : ℤ} {x z : ℚ} (hz : OnGrid k z) (h : x ≤ z) : roundTo k x ≤ z :=
  hz.roundTo_eq ▸ roundTo_mono k h

-- The exponent of the last mantissa bit that a number of the size of `x` keeps in the format.
def quantum (spec : Format) (x : ℚ) : ℤ :=
  spec.targetExponent (Int.log 2 |x| + 1)

-- Rounding of an exact result to the precision of the format, before overflow is considered.
def rounded (spec : Format) (x : ℚ) : ℚ :=
  roundTo (quantum spec x) x

section

variable {spec : Format}

@[simp]
theorem quantum_neg (x : ℚ) : quantum spec (-x) = quantum spec x := by
  simp [quantum]

theorem rounded_neg (x : ℚ) : rounded spec (-x) = -rounded spec x := by
  simp [rounded, roundTo_neg]

@[simp]
theorem rounded_zero : rounded spec 0 = 0 := by
  simp [rounded, roundTo, roundEven]

theorem rounded_nonneg {x : ℚ} (h : 0 ≤ x) : 0 ≤ rounded spec x :=
  OnGrid.le_roundTo ⟨0, by simp⟩ h

theorem rounded_nonpos {x : ℚ} (h : x ≤ 0) : rounded spec x ≤ 0 :=
  OnGrid.roundTo_le ⟨0, by simp⟩ h

theorem mantissaBits_pos : 1 ≤ spec.mantissaBits := by
  simp [Format.mantissaBits]

theorem quantum_mono {x y : ℚ} (hx : 0 < x) (h : x ≤ y) : quantum spec x ≤ quantum spec y := by
  have hl : Int.log 2 |x| ≤ Int.log 2 |y| := by
    rw [abs_of_pos hx, abs_of_pos (hx.trans_le h)]
    exact Int.log_mono_right hx h
  simp only [quantum, Format.targetExponent]
  omega

theorem onGrid_quantum_zpow_log {x : ℚ} (h : spec.minExponent < quantum spec x) :
    OnGrid (quantum spec x) (2 ^ Int.log 2 |x|) := by
  apply onGrid_zpow
  have : 1 ≤ spec.mantissaBits := mantissaBits_pos
  simp only [quantum, Format.targetExponent] at h ⊢
  omega

theorem rounded_mono_of_pos {x y : ℚ} (hx : 0 < x) (h : x ≤ y) :
    rounded spec x ≤ rounded spec y := by
  have hy := hx.trans_le h
  have hq : quantum spec x ≤ quantum spec y := quantum_mono hx h
  rcases hq.lt_or_eq with hlt | heq
  case inr =>
    rw [rounded, rounded, heq]
    exact roundTo_mono _ h
  case inl =>
    -- in different binades the power of two at the foot of the upper one separates the results
    have hmin : spec.minExponent < quantum spec y := by
      refine lt_of_le_of_lt ?_ hlt
      simp [quantum, Format.targetExponent]
    have hgrid := onGrid_quantum_zpow_log hmin
    rw [abs_of_pos hy] at hgrid
    have hlog : Int.log 2 x < Int.log 2 y := by
      simp only [quantum, Format.targetExponent, abs_of_pos hx, abs_of_pos hy] at hlt
      omega
    have hxy : x ≤ 2 ^ Int.log 2 y := by
      refine le_of_lt ?_
      exact_mod_cast (Int.lt_zpow_iff_log_lt (b := 2) (by norm_num) hx).mpr hlog
    have hfoot : (2 : ℚ) ^ Int.log 2 y ≤ y := by
      exact_mod_cast Int.zpow_log_le_self (b := 2) (by norm_num) hy
    calc rounded spec x
      _ ≤ 2 ^ Int.log 2 y := (hgrid.coarsen hlt.le).roundTo_le hxy
      _ ≤ rounded spec y  := hgrid.le_roundTo hfoot

theorem rounded_mono : Monotone (rounded spec) := by
  intro x y h
  rcases lt_trichotomy 0 x with hx | rfl | hx
  case inl => exact rounded_mono_of_pos hx h
  case inr.inl => simpa using rounded_nonneg h
  case inr.inr =>
    rcases lt_or_ge y 0 with hy | hy
    case inl =>
      have : rounded spec (-y) ≤ rounded spec (-x) :=
        rounded_mono_of_pos (neg_pos.mpr hy) (neg_le_neg h)
      rw [rounded_neg, rounded_neg] at this
      linarith
    case inr => exact (rounded_nonpos hx.le).trans (rounded_nonneg hy)

-- A number that the format holds exactly, the exponent range aside.
def Representable (spec : Format) (x : ℚ) : Prop :=
  OnGrid (quantum spec x) x

theorem Representable.rounded_eq {x : ℚ} (h : Representable spec x) : rounded spec x = x :=
  OnGrid.roundTo_eq h

theorem representable_zero : Representable spec 0 :=
  ⟨0, by simp⟩

theorem Representable.neg {x : ℚ} (h : Representable spec x) : Representable spec (-x) := by
  unfold Representable
  rw [quantum_neg]
  exact OnGrid.neg h

theorem Representable.le_rounded {x z : ℚ} (hz : Representable spec z) (h : z ≤ x) :
    z ≤ rounded spec x :=
  hz.rounded_eq ▸ rounded_mono h

end

-- The rationals with the two infinities of a floating-point format.
abbrev Ext := WithBotTop ℚ

-- The first power of two whose exponent the format has no code for.
def limit (spec : Format) : ℚ :=
  2 ^ (2 ^ (spec.exponentBits - 1) : ℕ)

-- Overflow of an already rounded number to an infinity.
def overflow (spec : Format) (x : ℚ) : Ext :=
  if limit spec ≤ x then ⊤
  else if x ≤ -limit spec then ⊥
  else x

-- What a correctly rounded operation with the exact result `x` returns.
def ofRat (spec : Format) (x : ℚ) : Ext :=
  overflow spec (rounded spec x)

section

variable {spec : Format}

theorem limit_pos : 0 < limit spec := by
  simp [limit]

theorem overflow_mono : Monotone (overflow spec) := by
  intro x y h
  have : 0 < limit spec := limit_pos
  unfold overflow
  split_ifs <;> first | exact le_top | exact bot_le | (exfalso; linarith) | skip
  exact WithBotTop.coe_le_coe.mpr h

theorem ofRat_mono : Monotone (ofRat spec) :=
  overflow_mono.comp rounded_mono

theorem overflow_of_abs_lt {x : ℚ} (h : |x| < limit spec) : overflow spec x = x := by
  have ⟨_, _⟩ := abs_lt.mp h
  rw [overflow, if_neg (by linarith), if_neg (by linarith)]

theorem overflow_eq_coe {x q : ℚ} (h : overflow spec x = q) : x = q ∧ |x| < limit spec := by
  unfold overflow at h
  split_ifs at h with h₁ h₂
  case pos => exact absurd h.symm (WithBotTop.coe_ne_top q)
  case pos => exact absurd h.symm (WithBotTop.coe_ne_bot q)
  case neg =>
    refine ⟨WithBotTop.coe_injective h, ?_⟩
    rw [abs_lt]
    constructor <;> linarith

theorem Representable.ofRat_eq {x : ℚ} (h : Representable spec x) (hl : |x| < limit spec) :
    ofRat spec x = x := by
  rw [ofRat, h.rounded_eq, overflow_of_abs_lt hl]

end
end Ieee
