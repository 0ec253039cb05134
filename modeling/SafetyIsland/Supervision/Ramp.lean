import SafetyIsland.Ieee.Infinite
import SafetyIsland.Supervision.Latch

namespace SafetyIsland

open Ieee

namespace Clock

variable {start now now' : SteadyTime}

theorem unpack_nanos : Stored.unpack (1e9 : Float) =
    .finite .positive 8388608000000000 (-23) (by decide) := by
  rfl

theorem isFinite_nanos : IsFinite (1e9 : Float) := by
  rw [IsFinite, unpack_nanos]
  rfl

theorem rat_nanos : rat (1e9 : Float) = 1e9 := by
  rw [rat, unpack_nanos, toRat, signed]
  norm_num

theorem inRange_nanos (n : ℕ) : InRange (Float.ofNat n) 1e9 := by
  by_cases hf : IsFinite (Float.ofNat n)
  case neg =>
    refine .inl ?_
    have hu : (Stored.unpack (Float.ofNat n)).isFinite = false := by simpa [IsFinite] using hf
    unfold rat
    cases h : Stored.unpack (Float.ofNat n) <;> simp_all [Float.Model.UnpackedFloat.isFinite, toRat]
  case pos =>
    refine (rat_ofNat n hf).imp id fun h => ?_
    rw [rat_nanos, abs_of_nonneg (by positivity)]
    calc (2 : ℚ) ^ Float.Model.Format.binary64.minExponent
      _ ≤ 2 ^ (-30 : ℤ)                 := zpow_le_zpow_right₀ (by norm_num) (by decide)
      _ ≤ 1 / 1e9                       := by norm_num
      _ ≤ rat (Float.ofNat n) / 1e9     := by gcongr

theorem durationSeconds_eq (h : start ≤ now) :
    durationSeconds start now = Float.ofNat (now - start) / 1e9 := by
  rw [durationSeconds, ← Nat.cast_sub h]
  rfl

theorem durationSeconds_nonneg (h : start ≤ now) : 0 ≤ durationSeconds start now := by
  rw [durationSeconds_eq h]
  exact fdiv_nonneg (ofNat_nonneg _) isFinite_nanos (by rw [rat_nanos]; norm_num) (inRange_nanos _)

theorem durationSeconds_mono (h : start ≤ now) (h' : now ≤ now') :
    durationSeconds start now ≤ durationSeconds start now' := by
  rw [durationSeconds_eq h, durationSeconds_eq (h.trans h')]
  exact fdiv_le_fdiv_right (ofNat_mono (Nat.sub_le_sub_right h' start)) (ofNat_nonneg _)
    isFinite_nanos (by rw [rat_nanos]; norm_num) (inRange_nanos _) (inRange_nanos _)

end Clock

namespace Supervision

variable {v0Mps decelMps2 elapsedS elapsedS' maxV0Mps : Float}

theorem stopRampVelocity_cases (v0Mps decelMps2 elapsedS maxV0Mps : Float) :
    stopRampVelocity v0Mps decelMps2 elapsedS maxV0Mps = 0 ∨
    v0Mps ≤ maxV0Mps ∧ 0 < v0Mps - decelMps2 * elapsedS ∧
      stopRampVelocity v0Mps decelMps2 elapsedS maxV0Mps = v0Mps - decelMps2 * elapsedS := by
  by_cases hv : v0Mps ≤ maxV0Mps
  case neg => exact .inl (by simp [stopRampVelocity, hv])
  case pos =>
    by_cases h : 0 < v0Mps - decelMps2 * elapsedS
    case neg => exact .inl (by simp [stopRampVelocity, h])
    case pos => exact .inr ⟨hv, h, by simp [stopRampVelocity, hv, h]⟩

theorem stopRampVelocity_eq (hv : v0Mps ≤ maxV0Mps) (h : 0 < v0Mps - decelMps2 * elapsedS) :
    stopRampVelocity v0Mps decelMps2 elapsedS maxV0Mps = v0Mps - decelMps2 * elapsedS := by
  simp [stopRampVelocity, hv, h]

theorem stopRampVelocity_nonneg (v0Mps decelMps2 elapsedS maxV0Mps : Float) :
    0 ≤ stopRampVelocity v0Mps decelMps2 elapsedS maxV0Mps := by
  rcases stopRampVelocity_cases v0Mps decelMps2 elapsedS maxV0Mps with h | ⟨_, hp, h⟩
  case inl =>
    rw [h]
    decide
  case inr =>
    rw [h]
    exact flt_le hp

theorem finite_of_ramp_pos (hm : IsFinite maxV0Mps) (hv : v0Mps ≤ maxV0Mps) (hd : 0 ≤ decelMps2)
    (he : 0 ≤ elapsedS) (h : 0 < v0Mps - decelMps2 * elapsedS) :
    IsFinite v0Mps ∧ IsFinite (decelMps2 * elapsedS) := by
  refine isFinite_of_sub_pos h (fun ht => ?_) (fmul_nonneg hd he)
  have hle := (le_iff.mp hv).2.2
  rw [ht, hm.val_eq] at hle
  exact absurd hle (not_le.mpr (coe_lt_top _))

theorem stopRampVelocity_anti (hm : IsFinite maxV0Mps) (hd : 0 ≤ decelMps2) (he : 0 ≤ elapsedS)
    (h : elapsedS ≤ elapsedS') :
    stopRampVelocity v0Mps decelMps2 elapsedS' maxV0Mps ≤
      stopRampVelocity v0Mps decelMps2 elapsedS maxV0Mps := by
  rcases stopRampVelocity_cases v0Mps decelMps2 elapsedS' maxV0Mps with hz | ⟨hv, hp, hr⟩
  case inl =>
    rw [hz]
    exact stopRampVelocity_nonneg ..
  case inr =>
    have ⟨fv, fd'⟩ := finite_of_ramp_pos hm hv hd (fle_trans he h) hp
    have ⟨fdec, fe'⟩ := isFinite_of_mul fd'
    have fe := isFinite_of_le_of_le he h isFinite_zero fe'
    have hle : decelMps2 * elapsedS ≤ decelMps2 * elapsedS' := fmul_le_fmul_left h fe fe' fdec hd
    have hd₀ : 0 ≤ decelMps2 * elapsedS := fmul_nonneg hd he (le_iff.mp hle).1
    have fd := isFinite_of_le_of_le hd₀ hle isFinite_zero fd'
    have hs := fsub_le_fsub_left hle fd fd' fv
    rw [hr, stopRampVelocity_eq hv (flt_of_lt_of_le hp hs)]
    exact hs

theorem stopRampVelocity_le (hm : IsFinite maxV0Mps) (h₀ : 0 ≤ v0Mps) (hd : 0 ≤ decelMps2)
    (he : 0 ≤ elapsedS) : stopRampVelocity v0Mps decelMps2 elapsedS maxV0Mps ≤ v0Mps := by
  rcases stopRampVelocity_cases v0Mps decelMps2 elapsedS maxV0Mps with hz | ⟨hv, hp, hr⟩
  case inl => rwa [hz]
  case inr =>
    have ⟨fv, fd⟩ := finite_of_ramp_pos hm hv hd he hp
    have ⟨n, hval⟩ := fv.sub fd
    rw [hr]
    refine le_iff.mpr ⟨n, fv.isNumber, ?_⟩
    rw [hval, fv.val_eq, ← ofRat_rat]
    have := rat_nonneg (fmul_nonneg hd he fd.isNumber) fd
    exact ofRat_mono (by linarith)

theorem stopRampVelocity_of_invalid (hm : IsFinite maxV0Mps) (hd : 0 ≤ decelMps2)
    (he : 0 ≤ elapsedS) (h : v0Mps ≤ 0 ∨ ¬v0Mps ≤ maxV0Mps) :
    stopRampVelocity v0Mps decelMps2 elapsedS maxV0Mps = 0 := by
  rcases stopRampVelocity_cases v0Mps decelMps2 elapsedS maxV0Mps with hz | ⟨hv, hp, hr⟩
  case inl => exact hz
  case inr =>
    have hv₀ := h.resolve_right (not_not.mpr hv)
    have ⟨fv, fd⟩ := finite_of_ramp_pos hm hv hd he hp
    have hr₀ : rat v0Mps ≤ 0 := rat_zero ▸ (fv.le_iff isFinite_zero).mp hv₀
    have hd₀ : 0 ≤ rat (decelMps2 * elapsedS) := rat_nonneg (fmul_nonneg hd he fd.isNumber) fd
    have hle : val (v0Mps - decelMps2 * elapsedS) ≤ val (0 : Float) := by
      rw [(fv.sub fd).2, isFinite_zero.val_eq, ← ofRat_rat, rat_zero]
      exact ofRat_mono (by linarith)
    exact absurd (lt_iff.mp hp).2.2 hle.not_gt

end Supervision
end SafetyIsland
