import SafetyIsland.Ieee.Arith

namespace Ieee

open Float.Model (Format UnpackedFloat)
open Float.Model.UnpackedFloat

-- A type of stored floating-point numbers.
class Stored (α : Type) where
  spec      : Format
  bits      : 2 ≤ spec.exponentBits
  unpack    : α → UnpackedFloat
  canonical : ∀ x, Canonical spec (unpack x)
  lt_limit  : ∀ x, |toRat (unpack x)| < limit spec

instance : Stored Float where
  spec        := .binary64
  bits        := by decide
  unpack x    := x.toModel.unpack
  canonical _ := canonical_unpack _
  lt_limit _  := unpack_lt_limit (by decide) _

instance : Stored Float32 where
  spec        := .binary32
  bits        := by decide
  unpack x    := x.toModel.unpack
  canonical _ := canonical_unpack _
  lt_limit _  := unpack_lt_limit (by decide) _

section

variable {α : Type} [Stored α]

def rat (x : α) : ℚ :=
  toRat (Stored.unpack x)

def val (x : α) : Ext :=
  value (Stored.unpack x)

def IsNumber (x : α) : Prop :=
  (Stored.unpack x).isNaN = false

def IsFinite (x : α) : Prop :=
  (Stored.unpack x).isFinite = true

instance (x : α) : Decidable (IsNumber x) :=
  inferInstanceAs (Decidable (_ = _))

instance (x : α) : Decidable (IsFinite x) :=
  inferInstanceAs (Decidable (_ = _))

theorem IsFinite.isNumber {x : α} (h : IsFinite x) : IsNumber x := by
  unfold IsFinite IsNumber at *
  cases hx : Stored.unpack x <;> simp_all [isFinite, isNaN]

theorem IsFinite.val_eq {x : α} (h : IsFinite x) : val x = (rat x : Ext) := by
  unfold IsFinite val rat at *
  cases hx : Stored.unpack x <;> simp_all [isFinite, value]

theorem isFinite_of_between {x : α} {a b : ℚ} (hn : IsNumber x) (ha : (a : Ext) ≤ val x)
    (hb : val x ≤ (b : Ext)) : IsFinite x := by
  unfold IsFinite val IsNumber at *
  cases hx : Stored.unpack x
  case infinity s =>
    rw [hx] at ha hb
    cases s
    case positive => exact absurd hb (not_le.mpr (coe_lt_top b))
    case negative => exact absurd ha (not_le.mpr (bot_lt_coe a))
  case notANumber => simp [hx, isNaN] at hn
  all_goals rfl

end

section

variable {x y z : Float}

theorem le_iff : x ≤ y ↔ IsNumber x ∧ IsNumber y ∧ val x ≤ val y :=
  decide_eq_true_iff.trans <| le_iff_unpacked (Stored.canonical x) (Stored.canonical y)

theorem lt_iff : x < y ↔ IsNumber x ∧ IsNumber y ∧ val x < val y :=
  decide_eq_true_iff.trans <| lt_iff_unpacked (Stored.canonical x) (Stored.canonical y)

theorem le_of_not_lt (hx : IsNumber x) (hy : IsNumber y) (h : ¬x < y) : y ≤ x :=
  le_iff.mpr ⟨hy, hx, not_lt.mp fun hlt => h <| lt_iff.mpr ⟨hx, hy, hlt⟩⟩

theorem fle_trans (h₁ : x ≤ y) (h₂ : y ≤ z) : x ≤ z :=
  have ⟨nx, _, hxy⟩ := le_iff.mp h₁
  have ⟨_, nz, hyz⟩ := le_iff.mp h₂
  le_iff.mpr ⟨nx, nz, hxy.trans hyz⟩

theorem not_lt_of_le (h : x ≤ y) : ¬y < x := fun hlt =>
  (le_iff.mp h).2.2.not_gt (lt_iff.mp hlt).2.2

theorem not_lt_of_le_of_not_lt (h₁ : x ≤ y) (h₂ : ¬z < y) : ¬z < x := fun hlt =>
  have ⟨nz, _, h⟩ := lt_iff.mp hlt
  have ⟨_, ny, hxy⟩ := le_iff.mp h₁
  h₂ <| lt_iff.mpr ⟨nz, ny, h.trans_le hxy⟩

theorem isFinite_of_le_of_le (h₁ : x ≤ y) (h₂ : y ≤ z) (hx : IsFinite x) (hz : IsFinite z) :
    IsFinite y := by
  have ⟨_, ny, hxy⟩ := le_iff.mp h₁
  have ⟨_, _, hyz⟩ := le_iff.mp h₂
  rw [hx.val_eq] at hxy
  rw [hz.val_eq] at hyz
  exact isFinite_of_between ny hxy hyz

theorem IsFinite.sub (hx : IsFinite x) (hy : IsFinite y) :
    IsNumber (x - y) ∧ val (x - y) = ofRat .binary64 (rat x - rat y) :=
  roundsTo_repack (by decide) <|
    sub_roundsTo (Stored.canonical x) (Stored.canonical y) hx hy

theorem IsFinite.add (hx : IsFinite x) (hy : IsFinite y) :
    IsNumber (x + y) ∧ val (x + y) = ofRat .binary64 (rat x + rat y) :=
  roundsTo_repack (by decide) <|
    add_roundsTo (Stored.canonical x) (Stored.canonical y) hx hy

theorem IsFinite.mul (hx : IsFinite x) (hy : IsFinite y) :
    IsNumber (x * y) ∧ val (x * y) = ofRat .binary64 (rat x * rat y) :=
  roundsTo_repack (by decide) <|
    mul_roundsTo (Stored.canonical x) (Stored.canonical y) hx hy

theorem fsub_le_fsub_right (h : x ≤ y) (hx : IsFinite x) (hy : IsFinite y) (hz : IsFinite z) :
    x - z ≤ y - z := by
  have ⟨n₁, v₁⟩ := hx.sub hz
  have ⟨n₂, v₂⟩ := hy.sub hz
  have hr := (le_iff.mp h).2.2
  rw [hx.val_eq, hy.val_eq, WithBotTop.coe_le_coe] at hr
  refine le_iff.mpr ⟨n₁, n₂, ?_⟩
  rw [v₁, v₂]
  exact ofRat_mono (sub_le_sub_right hr _)

theorem fsub_le_fsub_left (h : x ≤ y) (hx : IsFinite x) (hy : IsFinite y) (hz : IsFinite z) :
    z - y ≤ z - x := by
  have ⟨n₁, v₁⟩ := hz.sub hy
  have ⟨n₂, v₂⟩ := hz.sub hx
  have hr := (le_iff.mp h).2.2
  rw [hx.val_eq, hy.val_eq, WithBotTop.coe_le_coe] at hr
  refine le_iff.mpr ⟨n₁, n₂, ?_⟩
  rw [v₁, v₂]
  exact ofRat_mono (sub_le_sub_left hr _)

theorem unpack_zero : Stored.unpack (0 : Float) = .zero .positive := by
  rfl

theorem val_zero : val (0 : Float) = ((0 : ℚ) : Ext) := by
  rw [val, unpack_zero, value_zero]

theorem isFinite_zero : IsFinite (0 : Float) := by
  rw [IsFinite, unpack_zero]
  rfl

theorem rat_nonneg (h : 0 ≤ x) (hx : IsFinite x) : 0 ≤ rat x := by
  have := (le_iff.mp h).2.2
  rwa [hx.val_eq, val_zero, WithBotTop.coe_le_coe] at this

theorem fmul_le_fmul_right (h : x ≤ y) (hx : IsFinite x) (hy : IsFinite y) (hz : IsFinite z)
    (h₀ : 0 ≤ z) : x * z ≤ y * z := by
  have ⟨n₁, v₁⟩ := hx.mul hz
  have ⟨n₂, v₂⟩ := hy.mul hz
  have hr := (le_iff.mp h).2.2
  rw [hx.val_eq, hy.val_eq, WithBotTop.coe_le_coe] at hr
  refine le_iff.mpr ⟨n₁, n₂, ?_⟩
  rw [v₁, v₂]
  exact ofRat_mono (mul_le_mul_of_nonneg_right hr (rat_nonneg h₀ hz))

end

-- A double stored in a float.
def narrow (x : Float) : Float32 :=
  .ofModel (.pack (recast .binary32 x.toModel.unpack))

-- A float read as a double.
def widen (x : Float32) : Float :=
  .ofModel (.pack (recast .binary64 x.toModel.unpack))

-- The integer part of a finite double, and 0 for the others.
def truncate (x : Float) : ℤ :=
  x.toModel.unpack.toInt 0 0

theorem le_iff32 {x y : Float32} : x ≤ y ↔ IsNumber x ∧ IsNumber y ∧ val x ≤ val y :=
  decide_eq_true_iff.trans <| le_iff_unpacked (Stored.canonical x) (Stored.canonical y)

theorem IsFinite.narrow {x : Float} (h : IsFinite x) :
    IsNumber (Ieee.narrow x) ∧ val (Ieee.narrow x) = ofRat .binary32 (rat x) :=
  roundsTo_repack (by decide) (recast_roundsTo h)

theorem repack_of_not_finite {spec : Format} {u : UnpackedFloat} (h : u.isFinite = false) :
    repack spec u = u := by
  cases u <;> simp_all [isFinite]

theorem unpack_narrow_of_not_finite {x : Float} (h : ¬IsFinite x) :
    Stored.unpack (narrow x) = Stored.unpack x := by
  have hf : (Stored.unpack x).isFinite = false := by simpa [IsFinite] using h
  calc Stored.unpack (narrow x)
    _ = repack .binary32 (recast .binary32 (Stored.unpack x)) := rfl
    _ = Stored.unpack x := by rw [recast_of_not_finite hf, repack_of_not_finite hf]

theorem isNumber_narrow {x : Float} (h : IsNumber x) : IsNumber (narrow x) := by
  by_cases hf : IsFinite x
  case pos => exact hf.narrow.1
  case neg => rwa [IsNumber, unpack_narrow_of_not_finite hf]

theorem val_of_not_finite {α : Type} [Stored α] {x : α} (hn : IsNumber x) (hf : ¬IsFinite x) :
    val x = ⊤ ∨ val x = ⊥ := by
  unfold IsNumber IsFinite at *
  rw [val]
  rcases hx : Stored.unpack x with (_ | _) | _ | _ | _ <;> simp_all [isNaN, isFinite, value]

theorem narrow_mono {x y : Float} (h : x ≤ y) : narrow x ≤ narrow y := by
  have ⟨nx, ny, hxy⟩ := le_iff.mp h
  refine le_iff32.mpr ⟨isNumber_narrow nx, isNumber_narrow ny, ?_⟩
  have hval : ∀ z, ¬IsFinite z → val (narrow z) = val z := fun z hz => by
    rw [val, val, unpack_narrow_of_not_finite hz]
  by_cases hx : IsFinite x <;> by_cases hy : IsFinite y
  case pos =>
    rw [hx.val_eq, hy.val_eq, WithBotTop.coe_le_coe] at hxy
    rw [hx.narrow.2, hy.narrow.2]
    exact ofRat_mono hxy
  case neg =>
    rw [hx.val_eq] at hxy
    rw [hval y hy]
    rcases val_of_not_finite ny hy with h | h
    case inl => exact h ▸ le_top
    case inr => exact absurd (h ▸ hxy) (not_le.mpr (bot_lt_coe _))
  case pos =>
    rw [hy.val_eq] at hxy
    rw [hval x hx]
    rcases val_of_not_finite nx hx with h | h
    case inl => exact absurd (h ▸ hxy) (not_le.mpr (coe_lt_top _))
    case inr => exact h ▸ bot_le
  case neg => rwa [hval x hx, hval y hy]

theorem isFinite_of_le_of_le32 {x y z : Float32} (h₁ : x ≤ y) (h₂ : y ≤ z) (hx : IsFinite x)
    (hz : IsFinite z) : IsFinite y := by
  have ⟨_, ny, hxy⟩ := le_iff32.mp h₁
  have ⟨_, _, hyz⟩ := le_iff32.mp h₂
  rw [hx.val_eq] at hxy
  rw [hz.val_eq] at hyz
  exact isFinite_of_between ny hxy hyz

theorem repack_exact {spec : Format} (h₂ : 2 ≤ spec.exponentBits) {u : UnpackedFloat} {q : ℚ}
    (h : RoundsTo spec u q) (hl : |q| < limit spec) :
    (repack spec u).isFinite = true ∧ toRat (repack spec u) = q := by
  have hv := value_repack h₂ h.canonical h.finite
  have hn := isNaN_repack h.canonical
  rw [h.value, overflow_of_abs_lt hl] at hv
  have hf : u.isNaN = false := by
    have := h.finite
    cases u <;> simp_all [isFinite, isNaN]
  rw [hf] at hn
  rcases hr : repack spec u with (_ | _) | _ | _ | _ <;> rw [hr] at hv hn
  case notANumber => simp [isNaN] at hn
  case infinity.negative => exact absurd hv (bot_lt_coe q).ne
  case infinity.positive => exact absurd hv.symm (coe_lt_top q).ne
  all_goals
    refine ⟨rfl, ?_⟩
    rw [value_of_not_infinity (by simp)] at hv
    exact WithBotTop.coe_injective hv

section

variable {x b : Float} {f : Float32}

theorem IsFinite.neg (h : IsFinite x) : IsFinite (-x) ∧ rat (-x) = -rat x :=
  have hr : RoundsTo .binary64 (Stored.unpack x).neg (-rat x) :=
    ⟨by rwa [isFinite_neg], (Stored.canonical x).neg, toRat_neg _⟩
  repack_exact (by decide) hr (by rw [abs_neg]; exact Stored.lt_limit x)

theorem IsFinite.abs (h : IsFinite x) : IsFinite x.abs ∧ rat x.abs = |rat x| :=
  have hr : RoundsTo .binary64 (Stored.unpack x).abs |rat x| :=
    ⟨by rwa [isFinite_abs], (Stored.canonical x).abs, toRat_abs _⟩
  repack_exact (by decide) hr (by rw [abs_abs]; exact Stored.lt_limit x)

theorem IsFinite.abs32 (h : IsFinite f) : IsFinite f.abs ∧ rat f.abs = |rat f| :=
  have hr : RoundsTo .binary32 (Stored.unpack f).abs |rat f| :=
    ⟨by rwa [isFinite_abs], (Stored.canonical f).abs, toRat_abs _⟩
  repack_exact (by decide) hr (by rw [abs_abs]; exact Stored.lt_limit f)

theorem unpack_abs_of_not_finite (hf : ¬IsFinite x) :
    Stored.unpack x.abs = (Stored.unpack x).abs := by
  have hu : (Stored.unpack x).isFinite = false := by simpa [IsFinite] using hf
  exact repack_of_not_finite (by rwa [isFinite_abs])

theorem abs_le_bound (h : x.abs ≤ b) (hb : IsFinite b) : IsFinite x ∧ |rat x| ≤ rat b := by
  have ⟨nx, _, hv⟩ := le_iff.mp h
  rw [hb.val_eq] at hv
  have hx : IsFinite x := by
    by_contra hf
    have hu := unpack_abs_of_not_finite hf
    rw [val, hu] at hv
    rw [IsNumber, hu] at nx
    unfold IsFinite at hf
    cases hc : Stored.unpack x <;> rw [hc] at hv nx hf
    case infinity => exact absurd hv (not_le.mpr (coe_lt_top _))
    case notANumber => exact absurd nx.symm Bool.false_ne_true
    all_goals exact hf rfl
  refine ⟨hx, ?_⟩
  rwa [hx.abs.1.val_eq, WithBotTop.coe_le_coe, hx.abs.2] at hv

theorem ofRat_neg {spec : Format} {q r : ℚ} (h : ofRat spec q = (r : Ext)) :
    ofRat spec (-q) = (-r : ℚ) := by
  have ⟨hr, hl⟩ := overflow_eq_coe h
  rw [ofRat, rounded_neg, hr, overflow_of_abs_lt (by rwa [abs_neg, ← hr])]

theorem narrow_abs_le (h : x.abs ≤ b) (hb : IsFinite b) (hn : IsFinite (narrow b)) :
    IsFinite (narrow x) ∧ (narrow x).abs ≤ narrow b := by
  have ⟨hx, hle⟩ := abs_le_bound h hb
  have ⟨hl, hu⟩ := abs_le.mp hle
  have ⟨nx, vx⟩ := hx.narrow
  have hbv := hb.narrow.2
  rw [hn.val_eq] at hbv
  have hu' : val (narrow x) ≤ (rat (narrow b) : Ext) := vx ▸ hbv ▸ ofRat_mono hu
  have hl' : ((-rat (narrow b) : ℚ) : Ext) ≤ val (narrow x) :=
    vx ▸ ofRat_neg hbv.symm ▸ ofRat_mono hl
  have hf := isFinite_of_between nx hl' hu'
  refine ⟨hf, le_iff32.mpr ⟨hf.abs32.1.isNumber, hn.isNumber, ?_⟩⟩
  rw [hf.val_eq, WithBotTop.coe_le_coe] at hu' hl'
  rw [hf.abs32.1.val_eq, hn.val_eq, WithBotTop.coe_le_coe, hf.abs32.2]
  exact abs_le.mpr ⟨hl', hu'⟩

theorem Representable.to_binary64 {q : ℚ} (h : Representable .binary32 q) :
    Representable .binary64 q := by
  refine OnGrid.coarsen h ?_
  simp only [quantum, Format.targetExponent, Format.mantissaBits, Format.minExponent]
  norm_num
  omega

theorem limit_le : limit .binary32 ≤ limit .binary64 := by
  unfold limit
  exact pow_le_pow_right₀ (by norm_num) (by decide)

theorem IsFinite.widen (h : IsFinite f) : IsFinite (Ieee.widen f) ∧ rat (Ieee.widen f) = rat f := by
  have hr : RoundsTo .binary64 (recast .binary64 (Stored.unpack f)) (rat f) := by
    have hq := (Stored.canonical f).representable.to_binary64.rounded_eq
    have hc : RoundsTo .binary64 (recast .binary64 (Stored.unpack f)) _ := recast_roundsTo h
    rwa [hq] at hc
  exact repack_exact (by decide) hr ((Stored.lt_limit f).trans_le limit_le)

theorem unpack_widen_of_not_finite (h : ¬IsFinite f) :
    Stored.unpack (widen f) = Stored.unpack f := by
  have hf : (Stored.unpack f).isFinite = false := by simpa [IsFinite] using h
  calc Stored.unpack (widen f)
    _ = repack .binary64 (recast .binary64 (Stored.unpack f)) := rfl
    _ = Stored.unpack f := by rw [recast_of_not_finite hf, repack_of_not_finite hf]

theorem isFinite_widen : IsFinite (widen f) ↔ IsFinite f := by
  by_cases h : IsFinite f
  case pos => exact iff_of_true h.widen.1 h
  case neg =>
    rw [IsFinite, unpack_widen_of_not_finite h]
    rfl

end
end Ieee
