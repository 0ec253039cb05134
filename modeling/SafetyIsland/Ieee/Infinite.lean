import SafetyIsland.Ieee.Division

namespace Ieee

open Float.Model (Format UnpackedFloat)
open Float.Model.UnpackedFloat

section

variable {x y z : Float}

theorem unpack_sub (x y : Float) : Stored.unpack (x - y) =
    repack .binary64 (UnpackedFloat.sub .binary64 (Stored.unpack x) (Stored.unpack y)) := by
  rfl

theorem unpack_mul (x y : Float) : Stored.unpack (x * y) =
    repack .binary64 (UnpackedFloat.mul .binary64 (Stored.unpack x) (Stored.unpack y)) := by
  rfl

theorem unpack_div (x y : Float) : Stored.unpack (x / y) =
    repack .binary64 (UnpackedFloat.div .binary64 (Stored.unpack x) (Stored.unpack y)) := by
  rfl

theorem ofRat_rat (x : Float) : ofRat .binary64 (rat x) = rat x :=
  (Stored.canonical x).representable.ofRat_eq (Stored.lt_limit x)

theorem IsFinite.le_iff (hx : IsFinite x) (hy : IsFinite y) : x ≤ y ↔ rat x ≤ rat y := by
  rw [Ieee.le_iff, hx.val_eq, hy.val_eq, WithBotTop.coe_le_coe]
  exact ⟨fun h => h.2.2, fun h => ⟨hx.isNumber, hy.isNumber, h⟩⟩

theorem flt_le (h : x < y) : x ≤ y :=
  have ⟨n, m, hv⟩ := lt_iff.mp h
  le_iff.mpr ⟨n, m, hv.le⟩

theorem fle_refl (hx : IsFinite x) : x ≤ x :=
  le_iff.mpr ⟨hx.isNumber, hx.isNumber, le_rfl⟩

theorem flt_of_le_of_lt (h : x ≤ y) (h' : y < z) : x < z :=
  have ⟨nx, _, hxy⟩ := le_iff.mp h
  have ⟨_, nz, hyz⟩ := lt_iff.mp h'
  lt_iff.mpr ⟨nx, nz, hxy.trans_lt hyz⟩

theorem flt_of_lt_of_le (h : x < y) (h' : y ≤ z) : x < z :=
  have ⟨nx, _, hv⟩ := lt_iff.mp h
  have ⟨_, nz, hv'⟩ := le_iff.mp h'
  lt_iff.mpr ⟨nx, nz, hv.trans_le hv'⟩

theorem rat_zero : rat (0 : Float) = 0 := by
  rw [rat, unpack_zero]
  rfl

theorem val_sub_self (hx : IsFinite x) : val (x - x) = ((0 : ℚ) : Ext) := by
  rw [(hx.sub hx).2, sub_self, representable_zero.ofRat_eq (by simpa using limit_pos)]

theorem val_ne_bot_of_nonneg (h : IsNumber x → 0 ≤ x) : val x ≠ ⊥ := by
  intro hb
  have hn : IsNumber x := by
    unfold IsNumber val at *
    cases hx : Stored.unpack x <;> simp_all [isNaN, value]
  have hv := (le_iff.mp (h hn)).2.2
  rw [val_zero, hb] at hv
  exact absurd hv (not_le.mpr (bot_lt_coe _))

theorem isFinite_of_sub_pos (h : 0 < x - y) (hx : val x ≠ ⊤) (hy : IsNumber y → 0 ≤ y) :
    IsFinite x ∧ IsFinite y := by
  have ⟨_, hn, hv⟩ := lt_iff.mp h
  have hb := val_ne_bot_of_nonneg hy
  have hs : (Sign.negative == -Sign.positive) = true := rfl
  rw [val_zero] at hv
  rw [IsNumber, unpack_sub] at hn
  rw [val, unpack_sub] at hv
  clear hy h
  unfold IsFinite val at *
  rcases hux : Stored.unpack x with (_ | _) | _ | _ | _ <;>
    rcases huy : Stored.unpack y with (_ | _) | _ | _ | _ <;>
    simp_all [UnpackedFloat.sub, isNaN, isFinite, value]

theorem isFinite_of_mul (h : IsFinite (x * y)) : IsFinite x ∧ IsFinite y := by
  rw [IsFinite, unpack_mul] at h
  unfold IsFinite
  cases hux : Stored.unpack x <;> cases huy : Stored.unpack y <;>
    simp_all [UnpackedFloat.mul, isFinite]

theorem nonneg_iff : 0 ≤ x ↔ Stored.unpack x = .infinity .positive ∨ IsFinite x ∧ 0 ≤ rat x := by
  rw [le_iff, val_zero]
  unfold IsFinite IsNumber val rat
  rcases hux : Stored.unpack x with (_ | _) | _ | _ | _ <;>
    simp [unpack_zero, isNaN, isFinite, value, toRat]

theorem nonneg_of_infinity (h : Stored.unpack x = .infinity .positive) : 0 ≤ x :=
  nonneg_iff.mpr (.inl h)

theorem not_isNaN_of_repack {spec : Format} {u : UnpackedFloat}
    (h : (repack spec u).isNaN = false) : u.isNaN = false := by
  cases u
  case notANumber => rwa [repack_notANumber] at h
  all_goals rfl

theorem infinity_mul {u : UnpackedFloat} (hn : (mul .binary64 (.infinity .positive) u).isNaN = false)
    (h : u = .infinity .positive ∨ u.isFinite = true ∧ 0 ≤ toRat u) :
    mul .binary64 (.infinity .positive) u = .infinity .positive := by
  rcases h with rfl | ⟨hf, hr⟩
  case inl => rfl
  case inr =>
    rcases u with _ | _ | _ | ⟨_ | _, m, e, hm⟩
    case finite.negative => exact absurd (neg_neg_of_pos (finite_pos hm e)) (not_lt.mpr hr)
    case finite.positive => rfl
    all_goals simp [UnpackedFloat.mul, isNaN, isFinite] at hn hf

theorem sign_mul_comm (s₁ s₂ : Sign) : s₁ * s₂ = s₂ * s₁ := by
  cases s₁ <;> cases s₂ <;> rfl

theorem fmul_comm (x y : Float) : x * y = y * x := by
  have hu : UnpackedFloat.mul .binary64 (Stored.unpack x) (Stored.unpack y) =
      UnpackedFloat.mul .binary64 (Stored.unpack y) (Stored.unpack x) := by
    cases Stored.unpack x <;> cases Stored.unpack y <;>
      simp [UnpackedFloat.mul, sign_mul_comm, Nat.mul_comm, add_comm]
  exact congrArg (fun u => Float.ofModel (.pack u)) hu

theorem fmul_nonneg (hx : 0 ≤ x) (hy : 0 ≤ y) (hn : IsNumber (x * y)) : 0 ≤ x * y := by
  have key {x y : Float} (hx : Stored.unpack x = .infinity .positive) (hy : 0 ≤ y)
      (hn : IsNumber (x * y)) : 0 ≤ x * y := by
    rw [IsNumber, unpack_mul, hx] at hn
    refine nonneg_of_infinity ?_
    rw [unpack_mul, hx, infinity_mul (not_isNaN_of_repack hn) (nonneg_iff.mp hy), repack_infinity]
  rcases nonneg_iff.mp hx with ux | ⟨fx, rx⟩
  case inl => exact key ux hy hn
  case inr =>
    rcases nonneg_iff.mp hy with uy | ⟨fy, ry⟩
    case inl => exact fmul_comm y x ▸ key uy hx (fmul_comm x y ▸ hn)
    case inr =>
      refine le_iff.mpr ⟨isFinite_zero.isNumber, hn, ?_⟩
      rw [(fx.mul fy).2, isFinite_zero.val_eq, ← ofRat_rat, rat_zero]
      exact ofRat_mono (mul_nonneg rx ry)

theorem fmul_le_fmul_left (h : x ≤ y) (hx : IsFinite x) (hy : IsFinite y) (hz : IsFinite z)
    (h₀ : 0 ≤ z) : z * x ≤ z * y :=
  fmul_comm x z ▸ fmul_comm y z ▸ fmul_le_fmul_right h hx hy hz h₀

theorem infinity_div (hx : Stored.unpack x = .infinity .positive) (hz : IsFinite z)
    (hp : 0 < rat z) : Stored.unpack (x / z) = .infinity .positive := by
  rw [unpack_div, hx]
  unfold IsFinite rat at *
  rcases huz : Stored.unpack z with _ | _ | _ | ⟨_ | _, m, e, hm⟩ <;> rw [huz] at hz hp
  case finite.negative => exact absurd (neg_neg_of_pos (finite_pos hm e)) hp.not_gt
  case finite.positive => exact repack_infinity _
  case zero => exact absurd hp (lt_irrefl 0)
  all_goals exact absurd hz Bool.false_ne_true

-- The quotient is zero or not below the smallest positive number of the format.
def InRange (x z : Float) : Prop :=
  rat x = 0 ∨ (2 : ℚ) ^ Format.binary64.minExponent ≤ |rat x / rat z|

theorem fdiv_nonneg (h : 0 ≤ x) (hz : IsFinite z) (hp : 0 < rat z) (hx : InRange x z) :
    0 ≤ x / z := by
  rcases nonneg_iff.mp h with ux | ⟨fx, rx⟩
  case inl => exact nonneg_of_infinity (infinity_div ux hz hp)
  case inr =>
    have ⟨n, v⟩ := fx.div hz hp.ne' hx
    refine le_iff.mpr ⟨isFinite_zero.isNumber, n, ?_⟩
    rw [v, isFinite_zero.val_eq, ← ofRat_rat, rat_zero]
    exact ofRat_mono (div_nonneg rx hp.le)

theorem fdiv_le_fdiv_right (h : x ≤ y) (h₀ : 0 ≤ x) (hz : IsFinite z) (hp : 0 < rat z)
    (hx : InRange x z) (hy : InRange y z) : x / z ≤ y / z := by
  have hdx := fdiv_nonneg h₀ hz hp hx
  rcases nonneg_iff.mp (fle_trans h₀ h) with uy | ⟨fy, ry⟩
  case inl =>
    have uq := infinity_div uy hz hp
    refine le_iff.mpr ⟨(le_iff.mp hdx).2.1, (le_iff.mp (nonneg_of_infinity uq)).2.1, ?_⟩
    rw [val, val, uq]
    exact le_top
  case inr =>
    have fx : IsFinite x := isFinite_of_le_of_le h₀ h isFinite_zero fy
    obtain ⟨nx, vx⟩ := fx.div hz hp.ne' hx
    obtain ⟨ny, vy⟩ := fy.div hz hp.ne' hy
    refine le_iff.mpr ⟨nx, ny, ?_⟩
    rw [vx, vy]
    exact ofRat_mono (div_le_div_of_nonneg_right ((fx.le_iff fy).mp h) hp.le)

theorem ofNat_mono {m n : ℕ} (h : m ≤ n) : Float.ofNat m ≤ Float.ofNat n := by
  have ⟨nm, vm⟩ := val_ofNat m
  have ⟨nn, vn⟩ := val_ofNat n
  refine le_iff.mpr ⟨nm, nn, ?_⟩
  rw [vm, vn]
  exact ofRat_mono (by exact_mod_cast h)

theorem ofNat_nonneg (n : ℕ) : 0 ≤ Float.ofNat n :=
  ofNat_mono n.zero_le

theorem rat_ofNat (n : ℕ) (hf : IsFinite (Float.ofNat n)) :
    rat (Float.ofNat n) = 0 ∨ 1 ≤ rat (Float.ofNat n) := by
  have hv := (val_ofNat n).2
  rw [hf.val_eq] at hv
  have ⟨hr, _⟩ := overflow_eq_coe hv.symm
  rw [← hr]
  rcases Nat.eq_zero_or_pos n with rfl | hn
  case inl => exact .inl (by simp)
  case inr =>
    refine .inr (Representable.le_rounded ?_ (by exact_mod_cast hn))
    exact_mod_cast @representable_natCast .binary64 1 (by decide)

end

theorem val_widen {f : Float32} : val (widen f) = val f := by
  by_cases h : IsFinite f
  case pos => rw [h.widen.1.val_eq, h.widen.2, h.val_eq]
  case neg => rw [val, unpack_widen_of_not_finite h, val]

theorem isNumber_widen {f : Float32} : IsNumber (widen f) ↔ IsNumber f := by
  by_cases h : IsFinite f
  case pos => exact iff_of_true h.widen.1.isNumber h.isNumber
  case neg => rw [IsNumber, unpack_widen_of_not_finite h, IsNumber]

theorem widen_nonneg {f : Float32} (h : 0 ≤ f) : 0 ≤ widen f := by
  have ⟨_, hn, hv⟩ := le_iff32.mp h
  refine le_iff.mpr ⟨isFinite_zero.isNumber, isNumber_widen.mpr hn, ?_⟩
  rw [val_widen]
  exact hv

theorem narrow_zero : narrow 0 = 0 := by
  rfl

theorem mantissa_roundToInt_le (m : ℕ) (e : ℤ) :
    ((shiftToExponent (m * 2 ^ (e - 0).toNat) (e - (e - 0).toNat) .exact 0).1.mantissa : ℚ) ≤
      m * 2 ^ e := by
  have ha := (Approx.exact (m * 2 ^ (e - 0).toNat)).shiftRight (0 - (e - (e - 0).toNat)).toNat
  refine ha.le.trans (le_of_eq ?_)
  rw [← shift_value m e (e - 0).toNat]
  have hn : (e - (e - 0).toNat : ℤ) = -((0 - (e - (e - 0).toNat)).toNat : ℤ) := by omega
  rw [div_eq_mul_inv]
  congr 1
  rw [← zpow_natCast, ← zpow_neg]
  congr 1
  exact hn.symm

theorem abs_truncate_le {x : Float} : |(truncate x : ℚ)| ≤ |rat x| := by
  have h : truncate x = (Stored.unpack x).toInt 0 0 := rfl
  rw [h, rat]
  cases Stored.unpack x
  case finite s m e hm =>
    have hle := mantissa_roundToInt_le m e
    simp only [toInt, roundToInt, decreaseExponent_eq, toRat, abs_signed]
    rw [abs_of_nonneg (by positivity : (0 : ℚ) ≤ m * 2 ^ e)]
    refine le_trans (le_of_eq ?_) hle
    cases s <;> simp [Sign.apply]
  case infinity s => cases s <;> simp [toInt]
  all_goals simp [toInt]

theorem IsFinite.neg32 {f : Float32} (h : IsFinite f) : IsFinite (-f) ∧ rat (-f) = -rat f :=
  have hr : RoundsTo .binary32 (Stored.unpack f).neg (-rat f) :=
    ⟨by rwa [isFinite_neg], (Stored.canonical f).neg, toRat_neg _⟩
  repack_exact (by decide) hr (by rw [abs_neg]; exact Stored.lt_limit f)

theorem finite_of_ofRat {α : Type} [Stored α] {spec : Format} {x : α} {q r : ℚ} (hn : IsNumber x)
    (hv : val x = ofRat spec q) (hr : Representable spec r) (hl : r < limit spec) (h : |q| ≤ r) :
    IsFinite x ∧ |rat x| ≤ r := by
  have hrl : |r| < limit spec := by rwa [abs_of_nonneg ((abs_nonneg q).trans h)]
  have ⟨h₁, h₂⟩ := abs_le.mp h
  have hu : val x ≤ (r : Ext) := hv ▸ hr.ofRat_eq hrl ▸ ofRat_mono h₂
  have hd : ((-r : ℚ) : Ext) ≤ val x := hv ▸ hr.neg.ofRat_eq (by rwa [abs_neg]) ▸ ofRat_mono h₁
  have hf := isFinite_of_between hn hd hu
  rw [hf.val_eq, WithBotTop.coe_le_coe] at hu hd
  exact ⟨hf, abs_le.mpr ⟨hd, hu⟩⟩

theorem IsFinite.narrow_abs_le {x : Float} {n : ℕ} (hx : IsFinite x) (hn : n < 2 ^ 24)
    (h : |rat x| ≤ n) : IsFinite (Ieee.narrow x) ∧ |rat (Ieee.narrow x)| ≤ n := by
  have ⟨hv, he⟩ := hx.narrow
  have hr : Representable .binary32 (n : ℚ) := representable_natCast hn
  refine finite_of_ofRat hv he hr ?_ h
  calc (n : ℚ)
    _ < 2 ^ 24          := by exact_mod_cast hn
    _ ≤ limit .binary32 := pow_le_pow_right₀ (by norm_num) (by decide)

theorem exact_ofNat {n : ℕ} (h : n < 2 ^ 53) : IsFinite (Float.ofNat n) ∧ rat (Float.ofNat n) = n := by
  have hr : Representable .binary64 (n : ℚ) := representable_natCast h
  have hl : (n : ℚ) < limit .binary64 := by
    calc (n : ℚ)
      _ < 2 ^ 53          := by exact_mod_cast h
      _ ≤ limit .binary64 := pow_le_pow_right₀ (by norm_num) (by decide)
  have ⟨hn, hv⟩ := val_ofNat n
  have hf := (finite_of_ofRat hn hv hr hl (le_of_eq (Nat.abs_cast n))).1
  refine ⟨hf, ?_⟩
  rw [hr.ofRat_eq (by rwa [Nat.abs_cast]), hf.val_eq] at hv
  exact WithBotTop.coe_injective hv

end Ieee
