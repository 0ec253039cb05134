import Mathlib.Analysis.SpecialFunctions.Trigonometric.Bounds
import SafetyIsland.Controller.State
import SafetyIsland.Longitudinal.Cycle

namespace SafetyIsland.Longitudinal

open Fallible UniverseUtils LongitudinalUtils MPCUtils OnReal

theorem applyDiffLimitFilterBetween_mem {input prev dt maxVal minVal : ℝ} (hd : 0 < dt)
    (hn : minVal ≤ 0) (hx : 0 ≤ maxVal) :
    applyDiffLimitFilterBetween input prev dt maxVal minVal ∈ Set.uIcc prev input := by
  rw [applyDiffLimitFilterBetween, stdMax_real, stdMin_real]
  have hm : (input - prev) / dt * dt = input - prev := div_mul_cancel₀ _ hd.ne'
  rcases le_total prev input with h | h
  · have hr : 0 ≤ (input - prev) / dt := div_nonneg (sub_nonneg.mpr h) hd.le
    rw [Set.uIcc_of_le h, max_eq_left (hn.trans hr)]
    have hl : 0 ≤ min ((input - prev) / dt) maxVal * dt := mul_nonneg (le_min hr hx) hd.le
    have hu : min ((input - prev) / dt) maxVal * dt ≤ (input - prev) / dt * dt :=
      mul_le_mul_of_nonneg_right (min_le_left _ _) hd.le
    constructor <;> linarith
  · have hr : (input - prev) / dt ≤ 0 := div_nonpos_of_nonpos_of_nonneg (sub_nonpos.mpr h) hd.le
    have hmax : max ((input - prev) / dt) minVal ≤ 0 := max_le hr hn
    rw [Set.uIcc_of_ge h, min_eq_left (hmax.trans hx)]
    have hl : (input - prev) / dt * dt ≤ max ((input - prev) / dt) minVal * dt :=
      mul_le_mul_of_nonneg_right (le_max_left _ _) hd.le
    have hu : max ((input - prev) / dt) minVal * dt ≤ 0 := mul_nonpos_of_nonpos_of_nonneg hmax hd.le
    constructor <;> linarith

theorem applyDiffLimitFilter_mem {input prev dt limVal : ℝ} (hd : 0 < dt) :
    applyDiffLimitFilter input prev dt limVal ∈ Set.uIcc prev input :=
  applyDiffLimitFilterBetween_mem hd (neg_nonpos.mpr (abs_nonneg limVal)) (abs_nonneg limVal)

theorem getDt_pos {p : Params ℝ} (s : State ℝ) (now : Call → ℝ)
    (h : 0 < p.longitudinalCtrlPeriod) : 0 < (s.getDt p now).1 := by
  rw [State.getDt, stdMax_real, stdMin_real]
  refine lt_max_of_lt_right (mul_pos h ?_)
  norm_num

-- What the bounds ask of the parameters.
structure Params.Sane (p : Params ℝ) : Prop where
  period   : 0 < p.longitudinalCtrlPeriod
  acc      : p.minAcc ≤ p.maxAcc
  jerk     : p.minJerk ≤ 0 ∧ 0 ≤ p.maxJerk
  feedback : p.accFeedbackGain = 0
  pitch    : p.minPitchRad = -p.maxPitchRad ∧ 0 ≤ p.maxPitchRad ∧ p.maxPitchRad ≤ Real.pi / 2

namespace Params

variable (p : Params ℝ)

-- The accelerations that the raw command may have, and those of the published one.
def rawRange : Set ℝ :=
  Set.Icc (min p.minAcc 0) (max p.maxAcc 0)

noncomputable def slope : ℝ :=
  9.81 * Real.sin p.maxPitchRad

def publishedRange : Set ℝ :=
  Set.Icc (min (min p.minAcc 0) p.stoppedState.acc - p.slope)
    (max (max p.maxAcc 0) p.stoppedState.acc + p.slope)

end Params

section

variable {p : Params ℝ} {s s' s₁ : State ℝ} {now : Call → ℝ} {d : ControlData ℝ} {dt a x y : ℝ}
  {raw pedal cmd : Motion ℝ} {input : InputData ℝ}

namespace Params.Sane

theorem slope_nonneg (h : p.Sane) : 0 ≤ p.slope := by
  have := Real.sin_nonneg_of_nonneg_of_le_pi h.pitch.2.1 (h.pitch.2.2.trans (by linarith [Real.pi_pos]))
  exact mul_nonneg (by norm_num) this

theorem rawRange_subset (h : p.Sane) : p.rawRange ⊆ p.publishedRange := by
  have hs := h.slope_nonneg
  refine Set.Icc_subset_Icc ?_ ?_
  · exact (sub_le_self _ hs).trans (min_le_left _ _)
  · exact (le_max_left _ _).trans (le_add_of_nonneg_right hs)

theorem zero_mem (_ : p.Sane) : 0 ∈ p.rawRange :=
  ⟨min_le_right _ _, le_max_right _ _⟩

theorem stoppedAcc_mem (h : p.Sane) : p.stoppedState.acc ∈ p.publishedRange := by
  have hs := h.slope_nonneg
  constructor
  · exact (sub_le_self _ hs).trans (min_le_right _ _)
  · exact (le_max_right _ _).trans (le_add_of_nonneg_right hs)

theorem zero_lit_mem (h : p.Sane) : (0.0 : ℝ) ∈ p.rawRange := by
  norm_num
  exact h.zero_mem

theorem clamp_mem (h : p.Sane) (x : ℝ) : stdClamp x p.minAcc p.maxAcc ∈ p.rawRange := by
  rw [stdClamp_real h.acc]
  constructor
  · exact (min_le_left _ _).trans (le_max_left _ _)
  · exact (max_le h.acc (min_le_right _ _)).trans (le_max_left _ _)

-- The compensation of a slope adds at most its strength at the largest pitch.
theorem abs_slope_le (h : p.Sane) (pitch : ℝ) :
    |9.81 * Real.sin (min (max pitch p.minPitchRad) p.maxPitchRad)| ≤ p.slope := by
  obtain ⟨hn, h₀, hx⟩ := h.pitch
  have hl : -p.maxPitchRad ≤ min (max pitch p.minPitchRad) p.maxPitchRad :=
    le_min (hn ▸ le_max_right _ _) (neg_le_self h₀)
  have hu : min (max pitch p.minPitchRad) p.maxPitchRad ≤ p.maxPitchRad := min_le_right _ _
  have hpi : -(Real.pi / 2) ≤ -p.maxPitchRad := neg_le_neg hx
  have hsl := Real.sin_le_sin_of_le_of_le_pi_div_two hpi (hu.trans hx) hl
  have hsu := Real.sin_le_sin_of_le_of_le_pi_div_two (hpi.trans hl) hx hu
  rw [Real.sin_neg] at hsl
  rw [abs_mul, Params.slope, abs_of_nonneg (by norm_num)]
  exact mul_le_mul_of_nonneg_left (abs_le.mpr ⟨hsl, hsu⟩) (by norm_num)

theorem add_mem (ha : a ∈ p.rawRange) (hx : |x| ≤ p.slope) : a + x ∈ p.publishedRange := by
  have hb := abs_le.mp hx
  have hl := min_le_left (min p.minAcc 0) p.stoppedState.acc
  have hu := le_max_left (max p.maxAcc 0) p.stoppedState.acc
  constructor
  · linarith [ha.1]
  · linarith [ha.2]

theorem slopeCompensation_eq (h : p.Sane) (a pitch : ℝ) (shift : Shift) :
    ∃ x, |x| ≤ p.slope ∧ State.applySlopeCompensation p a pitch shift = a + x := by
  have hb := h.abs_slope_le pitch
  unfold State.applySlopeCompensation
  rw [stdMax_real, stdMin_real]
  split
  · exact ⟨0, by rw [abs_zero]; exact h.slope_nonneg, (add_zero a).symm⟩
  · refine ⟨_, ?_, rfl⟩
    set x := Real.sin (min (max pitch p.minPitchRad) p.maxPitchRad)
    cases shift
    case forward =>
      rw [show 9.81 * x = 1.0 * 9.81 * x by norm_num] at hb
      exact hb
    case reverse =>
      rw [← abs_neg, show -(9.81 * x) = -1.0 * 9.81 * x by norm_num] at hb
      exact hb

theorem slopeCompensation_mem (h : p.Sane) (ha : a ∈ p.rawRange) (pitch : ℝ) (shift : Shift) :
    State.applySlopeCompensation p a pitch shift ∈ p.publishedRange := by
  obtain ⟨x, hx, he⟩ := h.slopeCompensation_eq a pitch shift
  rw [he]
  exact add_mem ha hx

end Params.Sane

namespace State

-- The invariant of the two commands that the limits start from.
structure Enveloped (p : Params ℝ) (s : State ℝ) : Prop where
  raw       : s.prevRawCtrlCmd.acc ∈ p.rawRange
  published : s.prevCtrlCmd.acc ∈ p.publishedRange

theorem Enveloped.congr (h : s.Enveloped p) (hr : s'.prevRawCtrlCmd = s.prevRawCtrlCmd)
    (hc : s'.prevCtrlCmd = s.prevCtrlCmd) : s'.Enveloped p :=
  ⟨hr ▸ h.raw, hc ▸ h.published⟩

theorem calcEmergencyCtrlCmd_mem (hp : p.Sane) (h : s.Enveloped p) (hd : 0 < dt) :
    (s.calcEmergencyCtrlCmd p dt).acc ∈ p.rawRange :=
  Set.uIcc_subset_Icc h.raw (hp.clamp_mem _) (applyDiffLimitFilter_mem hd)

theorem limitRawCmd_mem (hp : p.Sane) (h : s.Enveloped p) (hd : 0 < dt) :
    (s.limitRawCmd p raw dt).acc ∈ p.rawRange :=
  Set.uIcc_subset_Icc h.raw (hp.clamp_mem _)
    (applyDiffLimitFilterBetween_mem hd hp.jerk.1 hp.jerk.2)

theorem IsRaw.mem (hr : IsRaw p s dt raw) (hp : p.Sane) (h : s.Enveloped p) (hd : 0 < dt) :
    raw.acc ∈ p.rawRange := by
  cases hr
  case emergency => exact calcEmergencyCtrlCmd_mem hp h hd
  case driving => exact limitRawCmd_mem hp h hd
  case stopping => exact limitRawCmd_mem hp h hd

theorem IsPedal.mem (hc : IsPedal p s d pedal raw) (hp : p.Sane) (h : s.Enveloped p)
    (hd : 0 < d.dt) : pedal.acc ∈ p.publishedRange ∧ raw.acc ∈ p.rawRange := by
  cases hc
  case stopped =>
    exact ⟨hp.stoppedAcc_mem, hp.zero_lit_mem⟩
  case driven hr =>
    have hr := hr.mem hp h hd
    refine ⟨hp.slopeCompensation_mem ?_ _ _, hr⟩
    rwa [hp.feedback, mul_zero, sub_zero]

theorem Commanded.mem (hc : Commanded p s d cmd s') (hp : p.Sane) (h : s.Enveloped p)
    (hd : 0 < d.dt) : cmd.acc ∈ p.publishedRange ∧ s'.prevRawCtrlCmd.acc ∈ p.rawRange := by
  obtain ⟨pedal, hq, rfl⟩ := hc.pedal
  obtain ⟨hpub, hraw⟩ := hq.mem hp h hd
  exact ⟨Set.uIcc_subset_Icc h.published hpub (applyDiffLimitFilter_mem hd), hraw⟩

theorem Enveloped.setInput (h : s.Enveloped p) : (s.setInput input).Enveloped p := by
  rw [setInput_frame]
  exact h.congr rfl rfl

theorem Enveloped.observed (h : s.Enveloped p) (ho : Observed p s now d s') : s'.Enveloped p := by
  rw [ho.frame]
  exact h.congr rfl rfl

theorem Enveloped.transit {c : Conditions} (h : s.Enveloped p) (hp : p.Sane) :
    ((s.recorded p now d).transitState p now c d).Enveloped p := by
  have hr : (s.recorded p now d).Enveloped p := by
    rw [recorded_frame]
    exact h.congr rfl rfl
  refine ⟨?_, ?_⟩
  · rw [transitState_frame]
    exact hr.raw
  · rcases transitState_prevCtrlCmd p (s.recorded p now d) now c d with he | he
    · rw [he]
      exact hr.published
    · rw [he, stdMax_real]
      refine hp.rawRange_subset ?_
      change max (0.0 : ℝ) (s.recorded p now d).prevRawCtrlCmd.acc ∈ p.rawRange
      rcases max_choice (0.0 : ℝ) (s.recorded p now d).prevRawCtrlCmd.acc with hm | hm
      · rw [hm]
        exact hp.zero_lit_mem
      · rw [hm]
        exact hr.raw

variable [Slerp ℝ] {es : List (Event ℝ)}

theorem Cycle.enveloped {r : LongitudinalCmd ℝ × State ℝ} (hc : Cycle p s now input r)
    (hp : p.Sane) (h : s.Enveloped p) :
    r.2.Enveloped p ∧ r.1.acceleration = r.2.prevCtrlCmd.acc := by
  cases hc
  case far d s₁ ho _ =>
    have ho := ho.observed
    have hd : 0 < d.dt := ho.dt ▸ getDt_pos _ _ hp.period
    have h₁ := h.setInput.observed ho
    have hf : (if p.enableLargeTrackingErrorEmergency then s₁.changeControlState .emergency
        else s₁).Enveloped p := by
      split_ifs
      · exact h₁.congr rfl rfl
      · exact h₁
    have hm := calcEmergencyCtrlCmd_mem hp hf hd
    exact ⟨⟨hm, hp.rawRange_subset hm⟩, rfl⟩
  case near d s₁ s₂ v cmd ho _ hc =>
    have ho := ho.observed
    have hd : 0 < d.dt := ho.dt ▸ getDt_pos _ _ hp.period
    obtain ⟨hm, hr⟩ := hc.mem hp ((h.setInput.observed ho).transit hp) hd
    exact ⟨⟨hr, hm⟩, rfl⟩

theorem step_enveloped {e : Event ℝ} (hp : p.Sane) (hq : s.Equipped) (h : s.Enveloped p)
    (hs : s.step p e = some s') : s'.Enveloped p := by
  cases e
  case run =>
    obtain ⟨cmd, -, hc⟩ := step_run hq hs
    exact (hc.enveloped hp h).1
  case sync =>
    obtain rfl := Option.some.inj hs
    exact h.congr rfl rfl

theorem enveloped_of_run (hp : p.Sane) (hq : s.Equipped) (h : s.Enveloped p)
    (hr : Transition.Run (State.step p) s es s') : s'.Equipped ∧ s'.Enveloped p :=
  hr.invariant (P := fun s => s.Equipped ∧ s.Enveloped p)
    (fun hs _ hi => ⟨hi.1.of_same (step_sameParams hi.1 hs), step_enveloped hp hi.1 hi.2 hs⟩) ⟨hq, h⟩

end State

theorem Params.declared_sane (profile : Profile) : (Params.declared profile : Params ℝ).Sane where
  period   := by norm_num [Params.declared]
  acc      := by cases profile <;> norm_num [Params.declared, Profile.minAcc]
  jerk     := by cases profile <;> norm_num [Params.declared, Profile.minJerk]
  feedback := by norm_num [Params.declared]
  pitch    := by
    have := Real.pi_gt_three
    norm_num [Params.declared]
    linarith

theorem Params.declared_slope (profile : Profile) : (Params.declared profile : Params ℝ).slope ≤ 0.981 := by
  have hs : Real.sin (0.1 : ℝ) ≤ 0.1 := Real.sin_le (by norm_num)
  have he : (Params.declared profile : Params ℝ).slope = 9.81 * Real.sin 0.1 := by
    norm_num [Params.slope, Params.declared]
  rw [he]
  linarith

theorem Params.abs_lt_of_published {profile : Profile}
    (h : a ∈ (Params.declared profile : Params ℝ).publishedRange) : |a| < 6 := by
  have hs := Params.declared_slope profile
  obtain ⟨hl, hu⟩ := h
  cases profile <;> norm_num [Params.declared, Profile.minAcc, Profile.stoppedAcc] at hl hu hs <;>
    exact abs_lt.mpr ⟨by linarith, by linarith⟩

-- Every cycle of every run of the controller.
theorem acceleration_within_envelope [Slerp ℝ] (profile : Profile) (t strongAcc weakAccTime : ℝ)
    (opMode : OperationModeStateMsg) (es : List (Event ℝ)) (s : State ℝ)
    (h : Transition.Run (State.step (Params.declared profile))
      (State.declared t (.declared strongAcc weakAccTime) opMode) es s) :
    s.prevRawCtrlCmd.acc ∈ (Params.declared profile).rawRange ∧
    ∀ (input : InputData ℝ) (now : Call → ℝ),
      (∃ cmd s', s.run (Params.declared profile) now input = .ok (cmd, s') ∧
        cmd.acceleration ∈ (Params.declared profile).publishedRange ∧
        ∀ stopDecelMps2 : Float32, |cmd.acceleration| <
          Ieee.rat (SafetyIsland.Params.declared stopDecelMps2).maxAbsAccelMps2) ∧
      ∀ target prev lim : ℝ,
        applyDiffLimitFilter target prev (s.getDt (Params.declared profile) now).1 lim ∈
          Set.uIcc prev target ∧
        applyDiffLimitFilterBetween target prev (s.getDt (Params.declared profile) now).1
          (Params.declared profile).maxJerk (Params.declared profile).minJerk ∈
          Set.uIcc prev target := by
  have hp := Params.declared_sane profile
  have h₀ : (State.declared t (.declared strongAcc weakAccTime) opMode).Enveloped
      (Params.declared profile) := ⟨hp.zero_lit_mem, hp.rawRange_subset hp.zero_lit_mem⟩
  obtain ⟨hq, hs⟩ := State.enveloped_of_run hp (State.declared_equipped ..) h₀ h
  refine ⟨hs.raw, fun input now => ⟨?_, fun target prev lim => ?_⟩⟩
  · obtain ⟨⟨cmd, s'⟩, hr, hc⟩ := State.run_returns (.declared profile) now input hq
    obtain ⟨he, ha⟩ := hc.enveloped hp hs
    refine ⟨cmd, s', hr, ha ▸ he.published, fun stopDecel => ?_⟩
    have h₆ : Ieee.rat (SafetyIsland.Params.declared stopDecel).maxAbsAccelMps2 = 6 := by
      change Ieee.rat 6.0 = 6
      decide +kernel
    rw [h₆, ha]
    exact_mod_cast Params.abs_lt_of_published he.published
  · have hd := getDt_pos s now hp.period
    exact ⟨applyDiffLimitFilter_mem hd, applyDiffLimitFilterBetween_mem hd hp.jerk.1 hp.jerk.2⟩

-- What the interpolation of two equal orientations returns.
abbrev equalSlerp : Slerp ℝ :=
  ⟨fun q _ _ => q⟩

section

local instance atLeastTwo_two : Nat.AtLeastTwo 2 := ⟨by decide⟩
local instance atLeastTwo_ten : Nat.AtLeastTwo 10 := ⟨by decide⟩

-- A straight trajectory at 2 m/s, with the ego a little beside its beginning.
noncomputable def straightInput : InputData ℝ where
  currentTrajectory    := [0, 1, 2].map fun x =>
    { pose                    := ⟨⟨x, 0, 0⟩, ⟨0, 0, 0, 1⟩⟩
      longitudinalVelocityMps := 2
      lateralVelocityMps      := 0
      accelerationMps2        := 1 / 2
      headingRateRps          := 0 }
  currentPose          := ⟨⟨1 / 2, 1 / 10, 0⟩, ⟨0, 0, 0, 1⟩⟩
  currentVel           := 1
  currentAcc           := 0
  currentOperationMode := ⟨default, 2, true, false, true, true, true, true⟩

end

theorem acceleration_within_envelope_straight :
    ∃ s : State ℝ,
      Transition.Run (@State.step ℝ _ equalSlerp (Params.declared .after))
        (State.declared 100 (.declared 0 0) straightInput.currentOperationMode)
        [.run straightInput fun _ => 101, .sync true, .run straightInput fun _ => 102] s ∧
      s.prevRawCtrlCmd.acc ∈ (Params.declared .after).rawRange := by
  obtain ⟨s, h⟩ := @State.run_of_equipped ℝ _ (Params.declared .after) _ equalSlerp
    [.run straightInput fun _ => 101, .sync true, .run straightInput fun _ => 102]
    (State.declared_equipped 100 0 0 straightInput.currentOperationMode)
  exact ⟨s, h, (@acceleration_within_envelope equalSlerp .after 100 0 0 _ _ s h).1⟩

end
end SafetyIsland.Longitudinal
