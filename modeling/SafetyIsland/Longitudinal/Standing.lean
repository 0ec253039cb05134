import SafetyIsland.Longitudinal.Departure
import SafetyIsland.Longitudinal.Envelope

namespace SafetyIsland.Longitudinal

open Fallible Transition UniverseUtils MotionUtils LongitudinalUtils MPCUtils OnReal

namespace AtRest

scoped instance slerpReal : Slerp ℝ :=
  equalSlerp

end AtRest

open AtRest

-- The one point of a trajectory that ends where it begins.
noncomputable def standingPoint : TrajectoryPoint ℝ :=
  ⟨⟨⟨0, 0, 0⟩, ⟨0, 0, 0, 1⟩⟩, 0, 0, 0, 0⟩

-- The ego stands at that point and is not under control.
noncomputable def standingInput : InputData ℝ where
  currentTrajectory    := [standingPoint, standingPoint]
  currentPose          := standingPoint.pose
  currentVel           := 0
  currentAcc           := 0
  currentOperationMode := ⟨default, 1, false, false, true, true, true, true⟩

section

local instance atLeastTwo_hundred : Nat.AtLeastTwo 100 := ⟨by decide⟩

noncomputable def standingStart : State ℝ :=
  .declared 100 (.declared 0 0) standingInput.currentOperationMode

end

-- All points of a trajectory are one point.
def Constant (pt : TrajectoryPoint ℝ) (traj : List (TrajectoryPoint ℝ)) : Prop :=
  traj ≠ [] ∧ ∀ x ∈ traj, x = pt

namespace Constant

variable {pt target : TrajectoryPoint ℝ} {traj : List (TrajectoryPoint ℝ)} {i : ℕ}
  {pose : PoseMsg ℝ} {p : Params ℝ} {distance maxDist maxYaw : ℝ}

theorem lt_length (h : Constant pt traj) : 0 < traj.length :=
  List.length_pos_iff.mpr h.1

theorem vectorAt (h : Constant pt traj) (hi : i < traj.length) :
    Returns (Fallible.vectorAt traj i) fun x => x = pt :=
  (vectorAt_returns hi).mono fun x hx => h.2 x hx

theorem insertAt (h : Constant pt traj) (ht : target = pt) (hi : i ≤ traj.length) :
    Returns (Fallible.insertAt traj i target) fun ys => Constant pt ys := by
  rw [Fallible.insertAt, if_pos hi, ht]
  refine .ok ⟨List.ne_nil_of_length_eq_add_one (List.length_insertIdx_of_le_length hi _), ?_⟩
  intro x hx
  rcases (List.mem_insertIdx hi).mp hx with rfl | hx
  · rfl
  · exact h.2 x hx

theorem removeOverlap (h : Constant pt traj) : removeOverlapPoints traj 0 = [pt] := by
  obtain ⟨x, xs, rfl⟩ := List.exists_cons_of_ne_nil h.1
  have hx : x = pt := h.2 x List.mem_cons_self
  have hxs : ∀ y ∈ xs, y = pt := fun y hy => h.2 y (List.mem_cons_of_mem x hy)
  have hr : removeOverlapFrom pt xs = [] := by
    clear h
    induction xs with
    | nil => rfl
    | cons y ys ih =>
      rw [removeOverlapFrom, hxs y List.mem_cons_self, if_pos]
      · exact ih fun z hz => hxs z (List.mem_cons_of_mem y hz)
      · have hf : CppMath.fabs (0 : ℝ) < 1.0e-8 := by
          change |(0 : ℝ)| < _
          norm_num
        simp only [overlaps, sub_self, hf, and_self, decide_true]
  rw [removeOverlapPoints, List.drop_zero, hx]
  simp [hr]

theorem singleton (pt : TrajectoryPoint ℝ) : Constant pt [pt] :=
  ⟨List.cons_ne_nil _ _, fun _ hx => List.mem_singleton.mp hx⟩

theorem calcStopDistance_singleton (pt : TrajectoryPoint ℝ) (maxDist maxYaw : ℝ) :
    Returns (calcStopDistance pt.pose [pt] maxDist maxYaw) fun d => d = 0 := by
  have he : (searchZeroVelocityIndex [pt]).getD ([pt].length - 1) = 0 := by
    rcases hz : searchZeroVelocityIndex [pt] with - | j
    · rfl
    · exact Nat.lt_one_iff.mp (searchZeroVelocityIndex_lt hz)
  rw [calcStopDistance, he]
  refine (findFirstNearestSegmentIndex_returns (List.cons_ne_nil _ _)).bind fun j hj => ?_
  obtain rfl : j = 0 := Nat.le_zero.mp hj
  refine ⟨_, rfl, ?_⟩
  change (0.0 : ℝ) = 0
  norm_num

theorem lerpPoint_self (pt : TrajectoryPoint ℝ) (ratio : ℝ) : lerpPoint pt pt ratio = pt := by
  have hl (x : ℝ) : Interpolation.lerpRatio x x ratio = x := by
    simp [Interpolation.lerpRatio]
  obtain ⟨⟨⟨x, y, z⟩, o⟩, vel, lat, acc, rate⟩ := pt
  simp only [lerpPoint, lerpPose, lerpPosition, hl]
  rfl

theorem lerpTrajectoryPoint (h : Constant pt traj) :
    Returns (LongitudinalUtils.lerpTrajectoryPoint traj pose maxDist maxYaw) fun r =>
      r.1 = pt ∧ r.2 + 1 ≤ traj.length := by
  have hl := h.lt_length
  refine .ite (fun he => absurd (List.isEmpty_iff.mp he) h.1) fun _ => ?_
  refine .ite (fun _ => (h.vectorAt hl).bind fun _ hx => .pure ⟨hx, hl⟩) fun h₁ => ?_
  refine (findFirstNearestSegmentIndex_returns h.1).bind fun j hj => ?_
  refine .ite (fun _ => ?_) fun hn => ?_
  · exact (h.vectorAt (Nat.sub_lt hl Nat.one_pos)).bind fun _ hx => .pure ⟨hx, by omega⟩
  · have hj' : j + 1 < traj.length := by omega
    refine calcLongitudinalOffset_returns.bind fun _ _ => ?_
    refine (calcSignedArcLength_returns (.inr (by omega))).bind fun _ _ => ?_
    refine (h.vectorAt (Nat.lt_of_succ_lt hj')).bind fun p₀ h₀ => ?_
    refine (h.vectorAt hj').bind fun p₁ h₁ => .pure ⟨?_, hj'.le⟩
    rw [h₀, h₁]
    exact lerpPoint_self pt _

theorem interpolated (h : Constant pt traj) :
    Returns (State.calcInterpolatedTrajPointAndSegment p traj pose) fun r =>
      r.1 = pt ∧ r.2 + 1 ≤ traj.length := by
  refine .ite (fun hl => ?_) fun _ => h.lerpTrajectoryPoint
  exact (h.vectorAt h.lt_length).bind fun _ hx => .pure ⟨hx, hl.ge⟩

theorem insertTarget {idx : ℕ} (h : Constant pt traj) :
    Returns (State.insertTarget p idx distance pt traj) fun r => Constant pt r.1 := by
  refine .ite (fun _ => ?_) fun _ => .pure h
  have hr : Constant pt (removeOverlapPoints traj 0) := h.removeOverlap ▸ singleton pt
  refine (findTrajectoryPoseAfterDistance_returns hr.1).bind fun _ _ => ?_
  refine hr.interpolated.bind fun r hs => ?_
  exact (hr.insertAt hs.1 hs.2).bind fun ys hy => .pure hy

theorem normalizeRadian_zero : normalizeRadian (0 : ℝ) = 0 := by
  have hf : Angular.fmod (0 : ℝ) (2.0 * Angular.pi) = 0 := by
    change (0 : ℝ) - 2.0 * Real.pi * _ = 0
    norm_num
  have hpi := Real.pi_pos
  rw [normalizeRadian, hf, if_pos]
  change (0.0 - Real.pi : ℝ) ≤ 0 ∧ (0 : ℝ) < 0.0 - Real.pi + 2.0 * Real.pi
  norm_num
  constructor <;> linarith

theorem isDeviationLarge (pt : TrajectoryPoint ℝ)
    (ht : 0 ≤ p.stateTransition.emergencyStateTrajTransDev)
    (hr : 0 ≤ p.stateTransition.emergencyStateTrajRotDev) :
    State.isDeviationLarge p pt.pose pt.pose = false := by
  have hd : UniverseUtils.calcDistance2d pt.pose.position pt.pose.position = (0 : ℝ) := by
    rw [UniverseUtils.calcDistance2d, sub_self, sub_self]
    change √((0 : ℝ) ^ 2 + 0 ^ 2) = 0
    norm_num
  have hy : CppMath.fabs (0 : ℝ) = 0 := abs_zero
  rw [State.isDeviationLarge, hd, sub_self, normalizeRadian_zero, hy]
  simp [ht, hr]

end Constant

namespace State

variable {p : Params ℝ} {s : State ℝ} {now : Call → ℝ} {pt : TrajectoryPoint ℝ}

theorem getControlData_standing (h : Constant pt s.trajectory)
    (ht : 0 ≤ p.stateTransition.emergencyStateTrajTransDev)
    (hr : 0 ≤ p.stateTransition.emergencyStateTrajRotDev) :
    Returns (s.getControlData p now pt.pose) fun r =>
      r.1.isFarFromTrajectory = false ∧ r.1.stopDist = 0 := by
  refine .ite (fun he => absurd (List.isEmpty_iff.mp he) h.1) fun _ => ?_
  refine h.interpolated.bind fun r hs => ?_
  obtain ⟨nearest, segment⟩ := r
  obtain ⟨rfl, hs⟩ := hs
  refine (h.insertAt rfl hs).bind fun ys hy => ?_
  refine .ite (fun hf => ?_) fun _ => ?_
  · dsimp only at hf
    rw [Constant.isDeviationLarge nearest ht hr] at hf
    exact absurd hf Bool.false_ne_true
  refine hy.insertTarget.bind fun r hc => ?_
  dsimp only
  rw [hc.removeOverlap]
  have hn := List.cons_ne_nil nearest []
  refine (findFirstNearestIndex_returns hn).bind fun nearestIdx hi => ?_
  refine (findFirstNearestIndex_returns hn).bind fun targetIdx hj => ?_
  refine (vectorAt_returns hj).bind fun _ _ => ?_
  refine ((Constant.singleton nearest).vectorAt hi).bind fun x hx => ?_
  subst hx
  refine (Constant.calcStopDistance_singleton x _ _).bind fun d hd => ?_
  refine (getPitchByTraj_returns hj).bind fun _ _ => .pure ⟨rfl, hd⟩

-- The state that a cycle of the standing ego goes to, when it has just been running.
def standingNext : ControlState → ControlState
  | .drive     => .stopping
  | .stopping  => .stopping
  | .stopped   => .stopped
  | .emergency => .drive

theorem setInput_standing (s : State ℝ) :
    Constant standingPoint (s.setInput standingInput).trajectory := by
  have hv : isValidTrajectory standingInput.currentTrajectory = true := rfl
  have ht : (s.setInput standingInput).trajectory = [standingPoint, standingPoint] := by
    rw [setInput, setTrajectory, hv]
    rfl
  rw [ht]
  exact ⟨List.cons_ne_nil _ _, by simp⟩

theorem recordRunning_standing {profile : Profile} {d : ControlData ℝ}
    (hv : d.currentMotion.vel = 0) : s.recordRunning (.declared profile) now d = s := by
  have h : isNotRunning (.declared profile) d.currentMotion.vel d.shift = true := by
    have hf : CppMath.fabs (0 : ℝ) = 0 := abs_zero
    unfold isNotRunning
    rw [hv, hf]
    norm_num [Params.declared]
  rw [recordRunning, if_pos h]

theorem transitState_standing {profile : Profile} {d : ControlData ℝ} {v : ℝ}
    (hu : s.isUnderControl = false) (hv : d.currentMotion.vel = 0) (hd : d.stopDist = 0)
    (hn : now .stopped = s.lastRunningTime) :
    ((s.recorded (.declared profile) now d).transitState (.declared profile) now
      ((s.recordRunning (.declared profile) now d).conditions (.declared profile) now d v)
      d).controlState = standingNext s.controlState := by
  have hc : (s.conditions (.declared profile) now d v) = ⟨false, false, true, false, false⟩ := by
    rw [conditions, emergencyCondition, stoppedCondition, stoppingCondition,
      State.departureFromStopping, State.departureFromStopped, hd, hn, sub_self]
    norm_num [Params.declared]
  rw [recordRunning_standing hv, hc]
  obtain ⟨hs, hu', -⟩ := recorded_unchanged (.declared profile) s now d
  rw [transitState, hs]
  cases he : s.controlState <;> dsimp only
  · rw [updateDrive]
    simp [Params.declared]
    rfl
  · rw [updateStopping]
    simp [hs, he, standingNext]
  · rw [updateStopped]
    simp [hs, he, standingNext]
  · rw [updateEmergency]
    simp [hu', hu]
    rfl

theorem transitState_lastRunningTime {profile : Profile} {d : ControlData ℝ} {c : Conditions}
    (hv : d.currentMotion.vel = 0) :
    ((s.recorded (.declared profile) now d).transitState (.declared profile) now c
      d).lastRunningTime = s.lastRunningTime := by
  rw [transitState_frame, recorded, recordRunning_standing hv, forgetKeepStopped, recordUnderControl]
  split_ifs <;> rfl

theorem Cycle.standing {profile : Profile} {r : LongitudinalCmd ℝ × State ℝ}
    (h : Cycle (.declared profile) s now standingInput r)
    (hn : now .stopped = s.lastRunningTime) :
    r.2.controlState = standingNext s.controlState ∧ r.2.lastRunningTime = s.lastRunningTime := by
  have hp : (0 : ℝ) ≤ (Params.declared profile).stateTransition.emergencyStateTrajTransDev ∧
      (0 : ℝ) ≤ (Params.declared profile).stateTransition.emergencyStateTrajRotDev := by
    norm_num [Params.declared]
  cases h
  case far d s₁ hr hf =>
    have hd := (getControlData_standing (setInput_standing s) hp.1 hp.2).of_eq hr.data
    exact absurd (hd.1.symm.trans hf) Bool.false_ne_true
  case near d s₁ s₂ v cmd hr hf hc =>
    have hd := (getControlData_standing (setInput_standing s) hp.1 hp.2).of_eq hr.data
    obtain ⟨hs, hu, -, -, hv⟩ := hr.unchanged
    have hl : s₁.lastRunningTime = s.lastRunningTime := by
      rw [hr.observed.frame, setInput_frame]
    rw [← hs, ← hl]
    refine ⟨hc.unchanged.1.trans (transitState_standing hu hv hd.2 (hn.trans hl.symm)), ?_⟩
    change s₂.lastRunningTime = _
    rw [hc.frame]
    exact transitState_lastRunningTime hv

-- A trajectory without points is not taken over; without a trajectory the ego is far from it.
noncomputable def lostInput : InputData ℝ :=
  { standingInput with currentTrajectory := [] }

theorem Cycle.lost {profile : Profile} {r : LongitudinalCmd ℝ × State ℝ}
    (h : Cycle (.declared profile) s now lostInput r) (ht : s.trajectory = []) :
    r.2.controlState = .emergency ∧ r.2.lastRunningTime = s.lastRunningTime ∧
      r.2.trajectory = [] := by
  have hd : Returns ((s.setInput lostInput).getControlData (.declared profile) now
      lostInput.currentPose) fun r => r.1.isFarFromTrajectory = true := by
    refine .ite (fun _ => .pure rfl) fun he => absurd ?_ he
    change (s.setInput lostInput).trajectory.isEmpty = true
    have hv : isValidTrajectory lostInput.currentTrajectory = false := rfl
    rw [setInput, setTrajectory, hv]
    simp [ht]
  cases h
  case near d s₁ s₂ v cmd hr hf hc =>
    exact absurd ((hd.of_eq hr.data).symm.trans hf) Bool.false_ne_true.symm
  case far d s₁ hr hf =>
    have hv : isValidTrajectory lostInput.currentTrajectory = false := rfl
    refine ⟨rfl, ?_, ?_⟩
    · change s₁.lastRunningTime = _
      rw [hr.observed.frame, setInput_frame]
    · change s₁.trajectory = _
      rw [hr.observed.frame, setInput, setTrajectory, hv]
      exact ht

end State
end SafetyIsland.Longitudinal
