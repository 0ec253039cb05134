import SafetyIsland.Longitudinal.Standing
import SafetyIsland.Transition.Ramp

namespace SafetyIsland.Longitudinal

open Transition UniverseUtils LongitudinalUtils MPCUtils OnReal

theorem applyDiffLimitFilterBetween_le {input prev dt maxVal minVal c : ℝ} (hd : 0 < dt)
    (hn : minVal ≤ 0) (hx : 0 ≤ maxVal) (hc : input ≤ c) :
    applyDiffLimitFilterBetween input prev dt maxVal minVal ≤ max c (prev + minVal * dt) := by
  rcases le_total prev input with h | h
  · have hm : applyDiffLimitFilterBetween input prev dt maxVal minVal ∈ Set.uIcc prev input :=
      applyDiffLimitFilterBetween_mem hd hn hx
    rw [Set.uIcc_of_le h] at hm
    exact (hm.2.trans hc).trans (le_max_left _ _)
  · rw [applyDiffLimitFilterBetween, stdMax_real, stdMin_real]
    have hm : (input - prev) / dt * dt = input - prev := div_mul_cancel₀ _ hd.ne'
    have hle : min (max ((input - prev) / dt) minVal) maxVal * dt ≤
        max ((input - prev) / dt) minVal * dt :=
      mul_le_mul_of_nonneg_right (min_le_left _ _) hd.le
    rw [max_mul_of_nonneg _ _ hd.le, hm] at hle
    rcases max_choice (input - prev) (minVal * dt) with he | he <;> rw [he] at hle
    · exact (by linarith : _ ≤ c).trans (le_max_left _ _)
    · exact (by linarith : _ ≤ prev + minVal * dt).trans (le_max_right _ _)

theorem applyDiffLimitFilter_le {input prev dt lim c : ℝ} (hd : 0 < dt) (hc : input ≤ c) :
    applyDiffLimitFilter input prev dt lim ≤ max c (prev + -|lim| * dt) :=
  applyDiffLimitFilterBetween_le hd (neg_nonpos.mpr (abs_nonneg lim)) (abs_nonneg lim) hc

theorem abs_applyDiffLimitFilterBetween_sub_le {input prev dt maxVal minVal l : ℝ} (hd : 0 < dt)
    (hl : 0 ≤ l) (hn : minVal ≤ -l) (hx : l ≤ maxVal) :
    |applyDiffLimitFilterBetween input prev dt maxVal minVal - input| ≤
      max 0 (|prev - input| - l * dt) := by
  rw [applyDiffLimitFilterBetween, stdMax_real, stdMin_real]
  have hm : (input - prev) / dt * dt = input - prev := div_mul_cancel₀ _ hd.ne'
  set r := (input - prev) / dt
  have hi : input = prev + r * dt := by linarith
  set u := min (max r minVal) maxVal
  have hs : prev + u * dt - input = (u - r) * dt := by rw [hi]; ring
  have hr : |prev - input| = |r| * dt := by
    rw [hi, sub_add_cancel_left, abs_neg, abs_mul, abs_of_pos hd]
  have hu : |u - r| ≤ max 0 (|r| - l) := by
    rcases le_total r minVal with h | h
    · have hu : u = minVal := by grind
      rw [hu, abs_of_nonneg (sub_nonneg.mpr h), abs_of_nonpos (h.trans (hn.trans (by linarith)))]
      exact (by linarith : minVal - r ≤ -r - l).trans (le_max_right _ _)
    · rcases le_total r maxVal with h' | h'
      · have hu : u = r := by grind
        rw [hu, sub_self, abs_zero]
        exact le_max_left _ _
      · have hu : u = maxVal := by grind
        rw [hu, abs_of_nonpos (sub_nonpos.mpr h'), abs_of_nonneg ((hl.trans hx).trans h')]
        exact (by linarith : -(maxVal - r) ≤ r - l).trans (le_max_right _ _)
  calc |prev + u * dt - input|
    _ = |u - r| * dt                := by rw [hs, abs_mul, abs_of_pos hd]
    _ ≤ max 0 (|r| - l) * dt        := by gcongr
    _ = max 0 (|prev - input| - l * dt) := by
      rw [max_mul_of_nonneg _ _ hd.le, hr]
      ring_nf

theorem abs_applyDiffLimitFilter_sub_le {input prev dt lim : ℝ} (hd : 0 < dt) :
    |applyDiffLimitFilter input prev dt lim - input| ≤ max 0 (|prev - input| - |lim| * dt) :=
  abs_applyDiffLimitFilterBetween_sub_le hd (abs_nonneg lim) le_rfl le_rfl

theorem getDt_ge (p : Params ℝ) (s : State ℝ) (now : Call → ℝ) :
    p.longitudinalCtrlPeriod / 2 ≤ (s.getDt p now).1 := by
  rw [State.getDt, stdMax_real, stdMin_real]
  refine le_max_of_le_right (le_of_eq ?_)
  norm_num
  ring

section

variable {p : Params ℝ} {s s' : State ℝ} {now : Call → ℝ} {input : InputData ℝ}
  {r : LongitudinalCmd ℝ × State ℝ} [Slerp ℝ]

namespace Params

variable (p : Params ℝ)

section

local instance atLeastTwo_two : Nat.AtLeastTwo 2 := ⟨by decide⟩

-- The shortest time between two cycles that a limit is scaled with.
noncomputable def leastDt : ℝ :=
  p.longitudinalCtrlPeriod / 2

end

noncomputable def emergencyTarget : ℝ :=
  stdClamp p.emergencyState.acc p.minAcc p.maxAcc

end Params

def Event.isRun {α : Type} : Event α → Bool
  | run .. => true
  | sync _ => false

namespace State

-- The cycles of a run end in one control state.
def EndsIn (c : ControlState) (_ : State ℝ) (e : Event ℝ) (s' : State ℝ) : Prop :=
  e.isRun = true → s'.controlState = c

-- The strength of the smooth stop lies between its limits as long as the vehicle is stopping.
def StrengthLimited (s : State ℝ) : Prop :=
  s.controlState = .stopping → ∀ q, s.smoothStop.params = some q → q.minStrongAcc ≤ q.maxStrongAcc →
    s.smoothStop.strongAcc ∈ Set.Icc q.minStrongAcc q.maxStrongAcc

omit [Slerp ℝ] in
theorem strongAccFor_mem {q : SmoothStop.Params ℝ} (h : q.minStrongAcc ≤ q.maxStrongAcc)
    (vel dist : ℝ) : SmoothStop.strongAccFor q vel dist ∈ Set.Icc q.minStrongAcc q.maxStrongAcc := by
  rw [SmoothStop.strongAccFor]
  split
  · exact ⟨le_rfl, h⟩
  · rw [stdMax_real, stdMin_real]
    exact ⟨le_max_right _ _, max_le (min_le_right _ _) h⟩

omit [Slerp ℝ] in
theorem transitState_stopping {c : Conditions} {d : ControlData ℝ}
    (h : (s.transitState p now c d).controlState = .stopping) :
    s.controlState = .stopping ∧ (s.transitState p now c d).smoothStop = s.smoothStop ∨
      (s.transitState p now c d).smoothStop = (s.initSmoothStop p now d).smoothStop := by
  rw [State.transitState] at h ⊢
  cases hs : s.controlState <;> rw [hs] at h <;> dsimp only at h ⊢
  case drive =>
    rw [updateDrive] at h ⊢
    split_ifs at h ⊢
    all_goals first | exact .inr rfl | cases h | cases hs.symm.trans h
  case stopping =>
    rw [updateStopping] at h ⊢
    split_ifs at h ⊢
    all_goals exact .inl ⟨rfl, rfl⟩
  case stopped =>
    rw [updateStopped] at h
    split_ifs at h
    all_goals first | cases h | cases hs.symm.trans h
  case emergency =>
    rw [updateEmergency] at h
    split_ifs at h
    all_goals first | cases h | cases hs.symm.trans h

omit [Slerp ℝ] in
theorem StrengthLimited.transitState (h : s.StrengthLimited) {c : Conditions} {d : ControlData ℝ} :
    (s.transitState p now c d).StrengthLimited := by
  intro hs q hq hm
  rcases transitState_stopping hs with ⟨hc, he⟩ | he
  · rw [he] at hq ⊢
    exact h hc q hq hm
  · have hq : s.smoothStop.params = some q := by rwa [he] at hq
    rw [he]
    change s.smoothStop.params.elim s.smoothStop.strongAcc _ ∈ _
    rw [hq]
    exact strongAccFor_mem hm _ _

-- The state that a cycle commands in.
structure Transited (s : State ℝ) (d : ControlData ℝ) (t : State ℝ) (r : State ℝ) : Prop where
  controlState : r.controlState = t.controlState
  raw          : t.prevRawCtrlCmd = s.prevRawCtrlCmd
  published    : t.controlState ≠ .drive → t.prevCtrlCmd = s.prevCtrlCmd
  strength     : r.smoothStop.params = t.smoothStop.params ∧
    r.smoothStop.strongAcc = t.smoothStop.strongAcc
  limited      : s.StrengthLimited → t.StrengthLimited

omit [Slerp ℝ] in
theorem transitState_prevCtrlCmd_of_ne {c : Conditions} {d : ControlData ℝ}
    (h : (s.transitState p now c d).controlState ≠ .drive) :
    (s.transitState p now c d).prevCtrlCmd = s.prevCtrlCmd := by
  rw [transitState] at h ⊢
  split at h
  · rw [updateDrive] at h ⊢
    split_ifs <;> rfl
  · rw [updateStopping] at h ⊢
    split_ifs at h ⊢
    · rfl
    · rfl
    · exact absurd rfl h
    · rfl
  · rw [updateStopped]
    split_ifs <;> rfl
  · rw [updateEmergency]
    split_ifs <;> rfl

omit [Slerp ℝ] in
theorem StrengthLimited.congr (h : s.StrengthLimited) (hc : s'.controlState = s.controlState)
    (hp : s'.smoothStop.params = s.smoothStop.params)
    (hs : s'.smoothStop.strongAcc = s.smoothStop.strongAcc) : s'.StrengthLimited := by
  rw [StrengthLimited, hc, hp, hs]
  exact h

section

variable {d : ControlData ℝ} {s₁ : State ℝ}

theorem Reads.commands (h : Reads p s now input d s₁) :
    s₁.prevRawCtrlCmd = s.prevRawCtrlCmd ∧ s₁.prevCtrlCmd = s.prevCtrlCmd ∧
      s₁.controlState = s.controlState ∧ s₁.smoothStop = s.smoothStop := by
  rw [h.observed.frame, setInput_frame]
  exact ⟨rfl, rfl, rfl, rfl⟩

theorem Reads.strengthLimited (h : Reads p s now input d s₁) (hs : s.StrengthLimited) :
    s₁.StrengthLimited := by
  obtain ⟨-, -, hc, he⟩ := h.commands
  exact hs.congr hc (by rw [he]) (by rw [he])

end

theorem Cycle.cases_limited (h : Cycle p s now input r) :
    ∃ d t, p.leastDt ≤ d.dt ∧ Transited s d t r.2 ∧
      (r.2.prevRawCtrlCmd = t.calcEmergencyCtrlCmd p d.dt ∧ r.2.prevCtrlCmd = r.2.prevRawCtrlCmd ∧
        (p.enableLargeTrackingErrorEmergency = true → t.controlState = .emergency) ∨
      ∃ s₂, Commanded p t d r.2.prevCtrlCmd s₂ ∧ r.2.prevRawCtrlCmd = s₂.prevRawCtrlCmd) := by
  cases h
  case far d s₁ hr _ =>
    obtain ⟨hf, hc, -⟩ := hr.commands
    have hl : s.StrengthLimited → s₁.StrengthLimited := hr.strengthLimited
    refine ⟨d, if p.enableLargeTrackingErrorEmergency then s₁.changeControlState .emergency else s₁,
      hr.observed.dt ▸ getDt_ge p _ now, ⟨?_, ?_, fun _ => ?_, ?_, fun h => ?_⟩,
      .inl ⟨?_, ?_, fun h => ?_⟩⟩
    · rfl
    · rw [← hf]
      split_ifs <;> rfl
    · rw [← hc]
      split_ifs <;> rfl
    · exact ⟨rfl, rfl⟩
    · split_ifs
      · intro hs
        cases hs
      · exact hl h
    · rfl
    · rfl
    · rw [if_pos h]
      rfl
  case near d s₁ s₂ v cmd hr _ hc =>
    obtain ⟨hf, hp, -⟩ := hr.commands
    refine ⟨d, _, hr.observed.dt ▸ getDt_ge p _ now, ⟨?_, ?_, fun h => ?_, ?_, fun h => ?_⟩,
      .inr ⟨s₂, hc, rfl⟩⟩
    · change s₂.controlState = _
      rw [hc.frame]
    · rw [transitState_frame, recorded_frame]
      exact hf
    · rw [transitState_prevCtrlCmd_of_ne h, recorded_frame]
      exact hp
    · exact ⟨hc.same.smoothStop, hc.strong⟩
    · refine StrengthLimited.transitState ?_
      rw [recorded_frame]
      exact hr.strengthLimited h

theorem Cycle.raw_of_emergency (h : Cycle p s now input r) (he : r.2.controlState = .emergency) :
    ∃ dt, p.leastDt ≤ dt ∧ r.2.prevRawCtrlCmd.acc =
      applyDiffLimitFilter p.emergencyTarget s.prevRawCtrlCmd.acc dt p.emergencyState.jerk := by
  obtain ⟨d, t, hd, ht, ⟨hr, -, -⟩ | ⟨s₂, hc, hr⟩⟩ := h.cases_limited
  · refine ⟨d.dt, hd, ?_⟩
    rw [hr, ← ht.raw]
    rfl
  · refine ⟨d.dt, hd, ?_⟩
    have he := ht.controlState.symm.trans he
    obtain ⟨pedal, hq, -⟩ := hc.pedal
    rw [hr]
    generalize s₂.prevRawCtrlCmd = raw at hq ⊢
    cases hq
    case stopped hs => cases he.symm.trans hs
    case driven filtered hs hraw =>
      cases hraw
      case emergency =>
        rw [← ht.raw]
        rfl
      case driving hs => cases he.symm.trans hs
      case stopping hs _ _ => cases he.symm.trans hs

theorem Cycle.published_le (h : Cycle p s now input r) (hp : p.Sane)
    (hd : r.2.controlState ≠ .drive) (hs : r.2.controlState ≠ .stopped) :
    r.2.prevCtrlCmd.acc ≤ max (r.2.prevRawCtrlCmd.acc + p.slope)
      (s.prevCtrlCmd.acc - |p.maxAccCmdDiff| * p.leastDt) := by
  obtain ⟨d, t, hdt, ht, ⟨-, hr, -⟩ | ⟨s₂, hc, hr⟩⟩ := h.cases_limited
  · rw [hr]
    exact le_max_of_le_left (le_add_of_nonneg_right hp.slope_nonneg)
  · rw [ht.controlState] at hd hs
    have hdt₀ : 0 < d.dt := (half_pos hp.period).trans_le hdt
    obtain ⟨pedal, hq, he⟩ := hc.pedal
    rw [hr, he, ← ht.published hd]
    generalize s₂.prevRawCtrlCmd = raw at hq ⊢
    cases hq
    case stopped h => exact absurd h hs
    case driven filtered _ hraw =>
      obtain ⟨x, hx, hx'⟩ := hp.slopeCompensation_eq (raw.acc - filtered * p.accFeedbackGain)
        d.slopeAngle d.shift
      rw [hp.feedback, mul_zero, sub_zero] at hx'
      have hle : raw.acc + x ≤ raw.acc + p.slope := add_le_add_right (le_of_abs_le hx) _
      refine (applyDiffLimitFilter_le hdt₀ (c := raw.acc + p.slope) ?_).trans ?_
      · dsimp only
        rw [hp.feedback, mul_zero, sub_zero, hx']
        exact hle
      · refine max_le_max le_rfl ?_
        rw [neg_mul, ← sub_eq_add_neg]
        exact sub_le_sub_left (mul_le_mul_of_nonneg_left hdt (abs_nonneg _)) _

theorem Cycle.published_of_stopped (h : Cycle p s now input r) (hp : p.Sane)
    (hl : p.enableLargeTrackingErrorEmergency = true) (hs : r.2.controlState = .stopped) :
    |r.2.prevCtrlCmd.acc - p.stoppedState.acc| ≤ max 0
      (|s.prevCtrlCmd.acc - p.stoppedState.acc| - |p.maxAccCmdDiff| * p.leastDt) := by
  obtain ⟨d, t, hdt, ht, ⟨-, -, hc⟩ | ⟨s₂, hc, hr⟩⟩ := h.cases_limited
  · cases (hc hl).symm.trans (ht.controlState.symm.trans hs)
  · have hdt₀ : 0 < d.dt := (half_pos hp.period).trans_le hdt
    have hs := ht.controlState.symm.trans hs
    obtain ⟨pedal, hq, he⟩ := hc.pedal
    rw [he, ← ht.published (by rw [hs]; decide)]
    generalize s₂.prevRawCtrlCmd = raw at hq
    cases hq
    case driven hn _ => exact absurd hs hn
    case stopped =>
      refine (abs_applyDiffLimitFilter_sub_le hdt₀).trans (max_le_max le_rfl ?_)
      exact sub_le_sub_left (mul_le_mul_of_nonneg_left hdt (abs_nonneg _)) _

theorem Cycle.strengthLimited (h : Cycle p s now input r) (hs : s.StrengthLimited) :
    r.2.StrengthLimited := by
  obtain ⟨d, t, -, ht, -⟩ := h.cases_limited
  exact (ht.limited hs).congr ht.controlState ht.strength.1 ht.strength.2

theorem Cycle.raw_of_stopping (h : Cycle p s now input r)
    (hl : p.enableLargeTrackingErrorEmergency = true) (hs : r.2.controlState = .stopping) :
    ∃ dt q acc, p.leastDt ≤ dt ∧ r.2.smoothStop.params = some q ∧
      acc ∈ [q.strongStopAcc, q.weakStopAcc, r.2.smoothStop.strongAcc, q.weakAcc] ∧
      r.2.prevRawCtrlCmd.acc = applyDiffLimitFilterBetween (stdClamp acc p.minAcc p.maxAcc)
        s.prevRawCtrlCmd.acc dt p.maxJerk p.minJerk := by
  obtain ⟨d, t, hd, ht, ⟨-, -, hc⟩ | ⟨s₂, hc, hr⟩⟩ := h.cases_limited
  · cases (hc hl).symm.trans (ht.controlState.symm.trans hs)
  · have hs := ht.controlState.symm.trans hs
    obtain ⟨pedal, hq, -⟩ := hc.pedal
    rw [hr, ht.strength.1, ht.strength.2]
    generalize s₂.prevRawCtrlCmd = raw at hq ⊢
    cases hq
    case stopped hn => cases hs.symm.trans hn
    case driven hraw =>
      cases hraw
      case emergency hn => cases hs.symm.trans hn
      case driving hn => cases hs.symm.trans hn
      case stopping q acc hn hq hm =>
        refine ⟨d.dt, q, acc, hd, hq, hm, ?_⟩
        rw [← ht.raw]
        rfl

variable {es : List (Event ℝ)} {c : ControlState}

theorem step_strengthLimited {e : Event ℝ} (hq : s.Equipped) (h : s.StrengthLimited)
    (hs : s.step p e = some s') : s'.StrengthLimited := by
  cases e
  case run =>
    obtain ⟨cmd, -, hc⟩ := step_run hq hs
    exact hc.strengthLimited h
  case sync =>
    obtain rfl := Option.some.inj hs
    exact h

theorem along_of_endsIn {Q : State ℝ → Event ℝ → State ℝ → Prop}
    (h : Along (step p) (EndsIn c) s es s') (hq : s.Equipped) (hl : s.StrengthLimited)
    (hr : ∀ {t input now r}, Cycle p t input now r → s.SameParams r.2 → r.2.StrengthLimited →
      r.2.controlState = c → Q t (.run now input) r.2)
    (hs : ∀ s b, Q s (.sync b) { s with isSteerConverged := b }) : Along (step p) Q s es s' := by
  refine h.strengthen (P := fun t => s.SameParams t ∧ t.StrengthLimited) ?_ ⟨.refl s, hl⟩
  intro t e s' he q hi
  have ht := hq.of_same hi.1
  have hi' : s.SameParams s' ∧ s'.StrengthLimited :=
    ⟨hi.1.trans (step_sameParams ht he), step_strengthLimited ht hi.2 he⟩
  refine ⟨hi', ?_⟩
  cases e
  case run input now =>
    obtain ⟨cmd, -, hc⟩ := step_run ht he
    exact hr hc hi'.1 hi'.2 (q rfl)
  case sync b =>
    obtain rfl := Option.some.inj he
    exact hs t b

-- The raw and the published acceleration of a state.
def rawAcc (s : State ℝ) : ℝ :=
  s.prevRawCtrlCmd.acc

def publishedAcc (s : State ℝ) : ℝ :=
  s.prevCtrlCmd.acc

theorem Cycle.acceleration_eq (h : Cycle p s now input r) : r.1.acceleration = r.2.publishedAcc := by
  cases h <;> rfl

omit [Slerp ℝ] in
theorem leastDt_pos (hp : p.Sane) : 0 < p.leastDt :=
  half_pos hp.period

theorem emergency_ramps (hp : p.Sane) (h : Along (step p) (EndsIn .emergency) s es s') (hq : s.Equipped)
    (hl : s.StrengthLimited) :
    Along (step p) (fun s e s' =>
      Along.Falls Event.isRun (fun s => |s.rawAcc - p.emergencyTarget|) 0
        (|p.emergencyState.jerk| * p.leastDt) s e s' ∧
      Along.Falls Event.isRun rawAcc p.emergencyTarget
        (|p.emergencyState.jerk| * p.leastDt) s e s' ∧
      Along.Follows Event.isRun rawAcc publishedAcc p.slope (|p.maxAccCmdDiff| * p.leastDt) s e s')
      s es s' := by
  refine along_of_endsIn h hq hl ?_ fun s b => ⟨le_rfl, le_rfl, le_rfl⟩
  intro t now input r hc _ _ he
  obtain ⟨dt, hdt, hr⟩ := hc.raw_of_emergency he
  have hdt₀ := (leastDt_pos hp).trans_le hdt
  have hj : |p.emergencyState.jerk| * p.leastDt ≤ |p.emergencyState.jerk| * dt :=
    mul_le_mul_of_nonneg_left hdt (abs_nonneg _)
  refine ⟨?_, ?_, ?_⟩
  · change |r.2.prevRawCtrlCmd.acc - _| ≤ _
    rw [hr]
    refine (abs_applyDiffLimitFilter_sub_le hdt₀).trans (max_le_max le_rfl ?_)
    exact sub_le_sub_left hj _
  · change r.2.prevRawCtrlCmd.acc ≤ _
    rw [hr]
    refine (applyDiffLimitFilter_le hdt₀ le_rfl).trans (max_le_max le_rfl ?_)
    rw [neg_mul, ← sub_eq_add_neg]
    exact sub_le_sub_left hj _
  · exact hc.published_le hp (by rw [he]; decide) (by rw [he]; decide)

theorem stopping_ramps (hp : p.Sane) (ht : p.enableLargeTrackingErrorEmergency = true)
    (h : Along (step p) (EndsIn .stopping) s es s') (hq : s.Equipped) (hl : s.StrengthLimited)
    {q : SmoothStop.Params ℝ} {weakest : ℝ} (hsq : s.smoothStop.params = some q)
    (hm : q.minStrongAcc ≤ q.maxStrongAcc) (hn : p.minAcc ≤ weakest)
    (hw : ∀ acc ∈ [q.strongStopAcc, q.weakStopAcc, q.maxStrongAcc, q.weakAcc], acc ≤ weakest) :
    Along (step p) (fun s e s' =>
      Along.Falls Event.isRun rawAcc weakest (|p.minJerk| * p.leastDt) s e s' ∧
      Along.Follows Event.isRun rawAcc publishedAcc p.slope (|p.maxAccCmdDiff| * p.leastDt) s e s')
      s es s' := by
  refine along_of_endsIn h hq hl ?_ fun s b => ⟨le_rfl, le_rfl⟩
  intro t now input r hc hs hl' he
  obtain ⟨dt, q', acc, hdt, hq', hacc, hr⟩ := hc.raw_of_stopping ht he
  obtain rfl := Option.some.inj (hsq.symm.trans (hs.smoothStop ▸ hq'))
  have hdt₀ := (leastDt_pos hp).trans_le hdt
  have hle : acc ≤ weakest := by
    simp only [List.mem_cons, List.not_mem_nil, or_false] at hacc
    have hstrong := (hl' he q hq' hm).2.trans (hw q.maxStrongAcc (by simp))
    rcases hacc with rfl | rfl | rfl | rfl
    · exact hw _ (by simp)
    · exact hw _ (by simp)
    · exact hstrong
    · exact hw _ (by simp)
  refine ⟨?_, hc.published_le hp (by rw [he]; decide) (by rw [he]; decide)⟩
  change r.2.prevRawCtrlCmd.acc ≤ _
  rw [hr]
  refine (applyDiffLimitFilterBetween_le hdt₀ hp.jerk.1 hp.jerk.2 (c := weakest) ?_).trans
    (max_le_max le_rfl ?_)
  · rw [stdClamp_real hp.acc]
    exact max_le hn ((min_le_left _ _).trans hle)
  · rw [abs_of_nonpos hp.jerk.1, neg_mul, sub_neg_eq_add]
    exact add_le_add_right (mul_le_mul_of_nonpos_left hdt hp.jerk.1) _

theorem stopped_ramps (hp : p.Sane) (ht : p.enableLargeTrackingErrorEmergency = true)
    (h : Along (step p) (EndsIn .stopped) s es s') (hq : s.Equipped) (hl : s.StrengthLimited) :
    Along (step p) (Along.Falls Event.isRun (fun s => |s.publishedAcc - p.stoppedState.acc|) 0
      (|p.maxAccCmdDiff| * p.leastDt)) s es s' := by
  refine along_of_endsIn h hq hl ?_ fun s b => le_rfl
  intro t now input r hc _ _ he
  exact hc.published_of_stopped hp ht he

end State
end

section

variable {profile : Profile} {t strongAcc weakAccTime : ℝ} {opMode : OperationModeStateMsg}
  {es₀ es : List (Event ℝ)} {s s₁ s' : State ℝ} {input : InputData ℝ} {now : Call → ℝ}
  {cmd : LongitudinalCmd ℝ} {c : ControlState}

theorem Params.declared_leastDt (profile : Profile) :
    (Params.declared profile : Params ℝ).leastDt = 0.075 := by
  norm_num [Params.leastDt, Params.declared]

theorem Params.declared_maxAccCmdDiff (profile : Profile) :
    |(Params.declared profile : Params ℝ).maxAccCmdDiff| * 0.075 = 3.75 := by
  norm_num [Params.declared]

theorem Params.declared_emergencyTarget (profile : Profile) :
    (Params.declared profile : Params ℝ).emergencyTarget = profile.emergencyAcc := by
  rw [Params.emergencyTarget, stdClamp_real (Params.declared_sane profile).acc]
  cases profile <;> norm_num [Params.declared, Profile.emergencyAcc, Profile.minAcc]

namespace State

-- What holds of every state that the controller reaches.
structure Reachable (profile : Profile) (s : State ℝ) : Prop where
  sameParams : ∃ t strongAcc weakAccTime opMode,
    SameParams (.declared t (.declared strongAcc weakAccTime) opMode) s
  strength   : s.StrengthLimited
  enveloped  : s.Enveloped (.declared profile)

theorem Reachable.equipped (h : s.Reachable profile) : s.Equipped := by
  obtain ⟨t, strongAcc, weakAccTime, opMode, hs⟩ := h.sameParams
  exact (declared_equipped ..).of_same hs

theorem Reachable.smoothStop (h : s.Reachable profile) :
    s.smoothStop.params = (SmoothStop.declared 0 0 : SmoothStop ℝ).params := by
  obtain ⟨t, strongAcc, weakAccTime, opMode, hs⟩ := h.sameParams
  exact hs.smoothStop

theorem reachable_of_run [Slerp ℝ]
    (h : Run (step (.declared profile)) (.declared t (.declared strongAcc weakAccTime) opMode) es s) :
    s.Reachable profile := by
  have hp := Params.declared_sane profile
  refine h.invariant ?_ ⟨⟨t, strongAcc, weakAccTime, opMode, .refl _⟩, fun h => (by cases h),
    hp.zero_lit_mem, hp.rawRange_subset hp.zero_lit_mem⟩
  intro s e s' he _ hi
  obtain ⟨t, strongAcc, weakAccTime, opMode, hs⟩ := hi.sameParams
  exact ⟨⟨t, strongAcc, weakAccTime, opMode, hs.trans (step_sameParams hi.equipped he)⟩,
    step_strengthLimited hi.equipped hi.strength he, step_enveloped hp hi.equipped hi.enveloped he⟩

theorem Reachable.rawAcc_le (h : s.Reachable profile) : s.rawAcc ≤ 3 := by
  have hr := h.enveloped.raw.2
  norm_num [Params.declared] at hr
  exact hr

theorem Reachable.publishedAcc_le (h : s.Reachable profile) : s.publishedAcc ≤ 3.981 := by
  have hs := Params.declared_slope profile
  refine h.enveloped.published.2.trans ?_
  have hm : max (max (Params.declared profile : Params ℝ).maxAcc 0)
      (Params.declared profile : Params ℝ).stoppedState.acc = 3 := by
    cases profile <;> norm_num [Params.declared, Profile.stoppedAcc]
  rw [hm]
  linarith

theorem Reachable.abs_publishedAcc_sub_le (h : s.Reachable profile) :
    |s.publishedAcc - profile.stoppedAcc| ≤ 7.5 := by
  have hs := Params.declared_slope profile
  have hl := h.enveloped.published.1
  have hu := h.publishedAcc_le
  rw [abs_le]
  cases profile <;> norm_num [Params.declared, Profile.stoppedAcc, Profile.minAcc] at hl hu hs ⊢ <;>
    rw [publishedAcc] at hu ⊢ <;> constructor <;> linarith

theorem endsIn_append [Slerp ℝ]
    (h : Along (step (.declared profile)) (EndsIn c) s es s₁)
    (hr : s₁.run (.declared profile) now input = .ok (cmd, s')) (hc : s'.controlState = c) :
    Along (step (.declared profile)) (EndsIn c) s (es ++ [.run input now]) s' := by
  refine h.append (.single ?_ fun _ => hc)
  rw [step, hr]
  rfl

theorem acceleration_eq_published [Slerp ℝ] (h : s.Reachable profile)
    (hr : s.run (.declared profile) now input = .ok (cmd, s')) :
    cmd.acceleration = s'.publishedAcc :=
  ((run_returns (.declared profile) now input h.equipped).of_eq hr).acceleration_eq

theorem countP_append_run :
    ((es ++ [Event.run input now]).countP Event.isRun : ℝ) = es.countP Event.isRun + 1 := by
  rw [List.countP_append]
  exact Nat.cast_add_one _

theorem step_returns [Slerp ℝ] (p : Params ℝ) (now : Call → ℝ) (input : InputData ℝ) (h : s.Equipped) :
    ∃ s' cmd, s.step p (.run input now) = some s' ∧ s'.Equipped ∧ s.run p now input = .ok (cmd, s') ∧
      Cycle p s now input (cmd, s') := by
  obtain ⟨⟨cmd, s'⟩, hr, hc⟩ := run_returns p now input h
  have hs : s.step p (.run input now) = some s' := by
    rw [step, hr]
    rfl
  exact ⟨s', cmd, hs, h.of_same (step_sameParams h hs), hr, hc⟩

-- From any state of a run: `n` cycles in a row that end in the emergency state have lowered the
-- raw command by `n` times the least step, or to the emergency acceleration; from the highest
-- command on, that acceleration is reached.
theorem emergency_brakes [Slerp ℝ]
    (h₀ : Run (step (.declared profile)) (.declared t (.declared strongAcc weakAccTime) opMode) es₀ s)
    (h : Along (step (.declared profile)) (EndsIn .emergency) s es s₁)
    (hr : s₁.run (.declared profile) now input = .ok (cmd, s'))
    (he : s'.controlState = .emergency) :
    let n : ℝ  := es.countP Event.isRun + 1
    let fallen := n * (|profile.emergencyJerk| * 0.075)
    let bound  := max profile.emergencyAcc (s.rawAcc - fallen)
    s'.rawAcc ≤ bound ∧ cmd.acceleration ≤ max (bound + 0.981) (s.publishedAcc - n * 3.75) ∧
    (3 - profile.emergencyAcc ≤ fallen →
      s'.rawAcc = profile.emergencyAcc ∧ cmd.acceleration ≤ profile.emergencyAcc + 0.981) := by
  intro n fallen bound
  have hp := Params.declared_sane profile
  have hs := reachable_of_run h₀
  have hslope := Params.declared_slope profile
  have hramp := emergency_ramps hp (endsIn_append h hr he) hs.equipped hs.strength
  have hj : (Params.declared profile : Params ℝ).emergencyState.jerk = profile.emergencyJerk := rfl
  simp only [hj, Params.declared_leastDt, Params.declared_emergencyTarget,
    Params.declared_maxAccCmdDiff] at hramp
  have hrate : (0 : ℝ) ≤ |profile.emergencyJerk| * 0.075 := by positivity
  have hrates : |profile.emergencyJerk| * 0.075 ≤ (3.75 : ℝ) := by
    cases profile <;> norm_num [Profile.emergencyJerk]
  have hdist := hramp.falls hrate fun q => q.1
  have hraw := hramp.falls hrate fun q => q.2.1
  have hpub := hramp.follows hrate hrates fun q => q.2
  rw [countP_append_run] at hdist hraw hpub
  have hcmd := acceleration_eq_published (reachable_of_run (h₀.append h.run)) hr
  have hpub : cmd.acceleration ≤ max (bound + 0.981) (s.publishedAcc - n * 3.75) := by
    rw [hcmd]
    exact hpub.trans (max_le_max (add_le_add_right hslope _) le_rfl)
  refine ⟨hraw, hpub, fun hf => ?_⟩
  have hle := hs.rawAcc_le
  have hb : bound ≤ profile.emergencyAcc := max_le le_rfl (by linarith)
  refine ⟨?_, hpub.trans (max_le (add_le_add_left hb _) ?_)⟩
  · have hge : profile.emergencyAcc ≤ s.rawAcc := by
      have := hs.enveloped.raw.1
      cases profile <;> norm_num [Params.declared, Profile.minAcc, Profile.emergencyAcc] at this ⊢ <;>
        exact this
    have hz : |s'.rawAcc - profile.emergencyAcc| ≤ 0 := by
      refine hdist.trans (max_le le_rfl ?_)
      rw [abs_of_nonneg (sub_nonneg.mpr hge)]
      change s.rawAcc - profile.emergencyAcc - fallen ≤ 0
      linarith
    exact sub_eq_zero.mp (abs_nonpos_iff.mp hz)
  · have hn : fallen ≤ n * 3.75 := mul_le_mul_of_nonneg_left hrates (by positivity)
    have hpl := hs.publishedAcc_le
    linarith

open AtRest in
-- The controller has no trajectory.
theorem emergency_brakes_lost :
    let es := [Event.run lostInput fun _ => (100 : ℝ)]
    ∃ s₁ cmd s', Run (step (.declared .after)) standingStart es s₁ ∧
      s₁.run (.declared .after) (fun _ => 100) lostInput = .ok (cmd, s') ∧
      s'.rawAcc ≤ max Profile.after.emergencyAcc
        (standingStart.rawAcc - (es.countP Event.isRun + 1) *
          (|Profile.after.emergencyJerk| * 0.075)) := by
  intro es
  have hq : standingStart.Equipped := declared_equipped ..
  obtain ⟨s₁, _, h₁, hq₁, -, hc₁⟩ := step_returns (.declared .after) (fun _ => 100) lostInput hq
  have hl₁ := hc₁.lost rfl
  obtain ⟨s', cmd, -, -, hr, hc⟩ := step_returns (.declared .after) (fun _ => 100) lostInput hq₁
  have hl := hc.lost hl₁.2.2
  exact ⟨s₁, cmd, s', .single h₁ trivial, hr,
    (emergency_brakes .nil (.single h₁ fun _ => hl₁.1) hr hl.1).1⟩

-- The same for the stopping state: the raw command falls to the weakest of the strengths.
theorem stopping_brakes [Slerp ℝ]
    (h₀ : Run (step (.declared profile)) (.declared t (.declared strongAcc weakAccTime) opMode) es₀ s)
    (h : Along (step (.declared profile)) (EndsIn .stopping) s es s₁)
    (hr : s₁.run (.declared profile) now input = .ok (cmd, s'))
    (he : s'.controlState = .stopping) :
    let n : ℝ := es.countP Event.isRun + 1
    let bound := max (-0.3) (s.rawAcc - n * (|profile.minJerk| * 0.075))
    s'.rawAcc ≤ bound ∧ cmd.acceleration ≤ max (bound + 0.981) (s.publishedAcc - n * 3.75) := by
  intro n bound
  have hp := Params.declared_sane profile
  have hs := reachable_of_run h₀
  have hweak : (Params.declared profile : Params ℝ).minAcc ≤ -0.3 := by
    cases profile <;> norm_num [Params.declared, Profile.minAcc]
  have hramp := stopping_ramps hp rfl (endsIn_append h hr he) hs.equipped hs.strength hs.smoothStop
    (by norm_num) hweak (by norm_num)
  have hj : (Params.declared profile : Params ℝ).minJerk = profile.minJerk := rfl
  simp only [hj, Params.declared_leastDt, Params.declared_maxAccCmdDiff] at hramp
  have hrates : |profile.minJerk| * 0.075 ≤ (3.75 : ℝ) := by
    cases profile <;> norm_num [Profile.minJerk]
  have hraw := hramp.falls (by positivity) fun q => q.1
  have hpub := hramp.follows (by positivity) hrates fun q => q
  rw [countP_append_run] at hraw hpub
  refine ⟨hraw, ?_⟩
  rw [acceleration_eq_published (reachable_of_run (h₀.append h.run)) hr]
  exact hpub.trans (max_le_max (add_le_add_right (Params.declared_slope profile) _) le_rfl)

open AtRest in
-- An emergency ends without control, and the ego stands at the end of its trajectory.
theorem stopping_brakes_standing :
    let es₀ := [.run lostInput fun _ => 100, .run standingInput fun _ => 100,
      .run standingInput fun _ => 100]
    let es := [Event.run standingInput fun _ => (100 : ℝ)]
    ∃ s s₁ cmd s', Run (step (.declared .after)) standingStart es₀ s ∧
      Run (step (.declared .after)) s es s₁ ∧
      s₁.run (.declared .after) (fun _ => 100) standingInput = .ok (cmd, s') ∧
      s'.rawAcc ≤ max (-0.3)
        (s.rawAcc - (es.countP Event.isRun + 1) * (|Profile.after.minJerk| * 0.075)) := by
  intro es₀ es
  have hq₀ : standingStart.Equipped := declared_equipped ..
  obtain ⟨s₁, _, h₁, hq₁, -, hc₁⟩ := step_returns (.declared .after) (fun _ => 100) lostInput hq₀
  obtain ⟨hs₁, hl₁, -⟩ := hc₁.lost rfl
  obtain ⟨s₂, _, h₂, hq₂, -, hc₂⟩ := step_returns (.declared .after) (fun _ => 100) standingInput hq₁
  obtain ⟨hs₂, hl₂⟩ := hc₂.standing hl₁.symm
  obtain ⟨s₃, _, h₃, hq₃, -, hc₃⟩ := step_returns (.declared .after) (fun _ => 100) standingInput hq₂
  obtain ⟨hs₃, hl₃⟩ := hc₃.standing (hl₂.trans hl₁).symm
  obtain ⟨s₄, _, h₄, hq₄, -, hc₄⟩ := step_returns (.declared .after) (fun _ => 100) standingInput hq₃
  obtain ⟨hs₄, hl₄⟩ := hc₄.standing ((hl₃.trans hl₂).trans hl₁).symm
  obtain ⟨s', cmd, -, -, hr, hc⟩ := step_returns (.declared .after) (fun _ => 100) standingInput hq₄
  obtain ⟨hs, -⟩ := hc.standing (((hl₄.trans hl₃).trans hl₂).trans hl₁).symm
  rw [hs₁] at hs₂
  rw [hs₂] at hs₃
  rw [hs₃] at hs₄
  rw [hs₄] at hs
  have h₀ : Run (step (.declared .after)) standingStart es₀ s₃ :=
    .cons h₁ trivial (.cons h₂ trivial (.single h₃ trivial))
  exact ⟨s₃, s₄, cmd, s', h₀, .single h₄ trivial, hr,
    (stopping_brakes h₀ (.single h₄ fun _ => hs₄) hr hs).1⟩

-- In the stopped state the published command goes to the one of that state, where it is from the
-- second cycle on.
theorem stopped_settles [Slerp ℝ]
    (h₀ : Run (step (.declared profile)) (.declared t (.declared strongAcc weakAccTime) opMode) es₀ s)
    (h : Along (step (.declared profile)) (EndsIn .stopped) s es s₁)
    (hr : s₁.run (.declared profile) now input = .ok (cmd, s')) (he : s'.controlState = .stopped) :
    let n : ℝ := es.countP Event.isRun + 1
    |cmd.acceleration - profile.stoppedAcc| ≤
      max 0 (|s.publishedAcc - profile.stoppedAcc| - n * 3.75) ∧
    (2 ≤ n → cmd.acceleration = profile.stoppedAcc) := by
  intro n
  have hs := reachable_of_run h₀
  have hramp := stopped_ramps (Params.declared_sane profile) rfl (endsIn_append h hr he) hs.equipped
    hs.strength
  have ha : (Params.declared profile : Params ℝ).stoppedState.acc = profile.stoppedAcc := rfl
  simp only [ha, Params.declared_leastDt, Params.declared_maxAccCmdDiff] at hramp
  have hdist := hramp.falls (by norm_num) fun q => q
  rw [countP_append_run] at hdist
  rw [acceleration_eq_published (reachable_of_run (h₀.append h.run)) hr]
  refine ⟨hdist, fun hn => ?_⟩
  have hz : |s'.publishedAcc - profile.stoppedAcc| ≤ 0 := by
    refine hdist.trans (max_le le_rfl ?_)
    have hle := hs.abs_publishedAcc_sub_le
    change |s.publishedAcc - profile.stoppedAcc| - n * 3.75 ≤ 0
    linarith
  exact sub_eq_zero.mp (abs_nonpos_iff.mp hz)

open AtRest in
-- The ego stands still, and the controller stays in its first state.
theorem stopped_settles_standing :
    ∃ s₁ cmd s', Run (step (.declared .after)) standingStart
        [.run standingInput fun _ => (100 : ℝ)] s₁ ∧
      s₁.run (.declared .after) (fun _ => 100) standingInput = .ok (cmd, s') ∧
      cmd.acceleration = Profile.after.stoppedAcc := by
  have hq : standingStart.Equipped := declared_equipped ..
  obtain ⟨s₁, _, h₁, hq₁, -, hc₁⟩ := step_returns (.declared .after) (fun _ => 100) standingInput hq
  have hs₁ := hc₁.standing rfl
  obtain ⟨s', cmd, -, -, hr, hc⟩ := step_returns (.declared .after) (fun _ => 100) standingInput hq₁
  have hs := hc.standing hs₁.2.symm
  rw [hs₁.1] at hs
  refine ⟨s₁, cmd, s', .single h₁ trivial, hr,
    (stopped_settles .nil (.single h₁ fun _ => hs₁.1) hr hs.1).2 ?_⟩
  norm_num [Event.isRun]

end State
end
end SafetyIsland.Longitudinal
