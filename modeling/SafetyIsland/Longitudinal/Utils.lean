import SafetyIsland.MotionUtils.Trajectory

namespace SafetyIsland.LongitudinalUtils

open Fallible UniverseUtils MotionUtils MPCUtils Interpolation CppMath Libm

section

variable {α : Type} [CppMath α]

def isFinitePoint (p : TrajectoryPoint α) : Bool :=
  [p.pose.position.x, p.pose.position.y, p.pose.position.z, p.pose.orientation.w,
    p.pose.orientation.x, p.pose.orientation.y, p.pose.orientation.z, p.longitudinalVelocityMps,
    p.lateralVelocityMps, p.accelerationMps2, p.headingRateRps].all Scalar.isFinite

def isValidTrajectory (traj : List (TrajectoryPoint α)) : Bool :=
  traj.all isFinitePoint && !traj.isEmpty

def isNan (x : Option α) : Bool :=
  x.all fun x => ¬x ≤ x

def calcStopDistance (currentPose : PoseMsg α) (traj : List (TrajectoryPoint α))
    (maxDist maxYaw : α) : Except Failure α := do
  let endIdx := (searchZeroVelocityIndex traj).getD (traj.length - 1)
  let segIdx ← findFirstNearestSegmentIndexWithSoftConstraints traj currentPose maxDist maxYaw
  let endPoint ← vectorAt traj endIdx
  -- For a single point `traj.points.size() - 2` wraps around.
  let dstSegIdx := if 2 ≤ traj.length then min endIdx (traj.length - 2) else endIdx
  let signedLengthOnTraj ← calcSignedArcLengthBetween traj currentPose.position segIdx
    endPoint.pose.position dstSegIdx
  return if isNan signedLengthOnTraj then 0.0 else signedLengthOnTraj.getD 0.0

-- The entry `(2, 0)` of `Eigen::Quaterniond::toRotationMatrix`.
def rotationMatrix20 (q : QuaternionMsg α) : α :=
  2.0 * q.z * q.x - 2.0 * q.y * q.w

def getPitchByPose (q : QuaternionMsg α) : α :=
  asin (-rotationMatrix20 q)

-- The first point of `rest`, which begins at the index `i`, that is a wheel base away.
def nextIdxFrom (start : PointMsg α) (wheelBase : α) : ℕ → List (TrajectoryPoint α) → Option ℕ
  | _, []      => none
  | i, p :: ps =>
    if calcDistance3d start p.pose.position > wheelBase then some i
    else nextIdxFrom start wheelBase (i + 1) ps

def getPitchByTraj (traj : List (TrajectoryPoint α)) (startIdx : ℕ) (wheelBase : α) :
    Except Failure α := do
  if traj.length ≤ 1 then
    return 0.0
  let start ← vectorAt traj startIdx
  let (prevIdx, nextIdx) :=
    match nextIdxFrom start.pose.position wheelBase (startIdx + 1) (traj.drop (startIdx + 1)) with
    | some i => (startIdx, i)
    | none   => (min startIdx (traj.length - 2), traj.length - 1)
  let prev ← vectorAt traj prevIdx
  let next ← vectorAt traj nextIdx
  return calcElevationAngle prev.pose.position next.pose.position

-- The overload with a bound for either direction.
def applyDiffLimitFilterBetween (inputVal prevVal dt maxVal minVal : α) : α :=
  let diffRaw := (inputVal - prevVal) / dt
  let diff := stdMin (stdMax diffRaw minVal) maxVal
  prevVal + diff * dt

def applyDiffLimitFilter (inputVal prevVal dt limVal : α) : α :=
  let maxVal := fabs limVal
  let minVal := -maxVal
  applyDiffLimitFilterBetween inputVal prevVal dt maxVal minVal

variable [Slerp α]

def lerpOrientation (oFrom oTo : QuaternionMsg α) (ratio : α) : QuaternionMsg α :=
  Slerp.slerp oFrom ratio oTo

def lerpPosition (p₀ p₁ : PointMsg α) (ratio : α) : PointMsg α :=
  { x := lerpRatio p₀.x p₁.x ratio
    y := lerpRatio p₀.y p₁.y ratio
    z := lerpRatio p₀.z p₁.z ratio }

def lerpPose (p₀ p₁ : PoseMsg α) (ratio : α) : PoseMsg α :=
  { position    := lerpPosition p₀.position p₁.position ratio
    orientation := lerpOrientation p₀.orientation p₁.orientation ratio }

-- The ratio at which the segment is closest to the pose.
def interpolateRatio (lenToInterpolated : Option α) (lenSegment : α) : α :=
  match lenToInterpolated with
  | some len =>
    if Scalar.isFinite len && Scalar.isFinite lenSegment && decide (fabs lenSegment > 1.0e-6) then
      stdClamp (len / lenSegment) 0.0 1.0
    else 0.0
  | none => 0.0

-- The fields of the message that the result leaves uninitialised are not read.
def lerpPoint (p₀ p₁ : TrajectoryPoint α) (ratio : α) : TrajectoryPoint α :=
  let single (field : TrajectoryPoint α → α) : α :=
    SinglePrecision.toSingle (lerpRatio (field p₀) (field p₁) ratio)
  { pose                    := lerpPose p₀.pose p₁.pose ratio
    longitudinalVelocityMps := single (·.longitudinalVelocityMps)
    lateralVelocityMps      := single (·.lateralVelocityMps)
    accelerationMps2        := single (·.accelerationMps2)
    headingRateRps          := single (·.headingRateRps) }

def emptyPoint : TrajectoryPoint α :=
  ⟨⟨⟨0.0, 0.0, 0.0⟩, ⟨0.0, 0.0, 0.0, 0.0⟩⟩, 0.0, 0.0, 0.0, 0.0⟩

def lerpTrajectoryPoint (points : List (TrajectoryPoint α)) (pose : PoseMsg α)
    (maxDist maxYaw : α) : Except Failure (TrajectoryPoint α × ℕ) := do
  if points.isEmpty then
    return (emptyPoint, 0)
  if points.length = 1 then
    return (← vectorAt points 0, 0)
  let segIdx ← findFirstNearestSegmentIndexWithSoftConstraints points pose maxDist maxYaw
  if segIdx ≥ points.length - 1 then
    return (← vectorAt points (points.length - 1), points.length - 2)
  let lenToInterpolated ← calcLongitudinalOffsetToSegment points segIdx pose.position
  let lenSegment ← calcSignedArcLength points segIdx (segIdx + 1)
  let p₀ ← vectorAt points segIdx
  let p₁ ← vectorAt points (segIdx + 1)
  return (lerpPoint p₀ p₁ (interpolateRatio lenToInterpolated lenSegment), segIdx)

def poseAfterDistanceFrom (last : PoseMsg α) : α → PoseMsg α → List (PoseMsg α) → PoseMsg α
  | _,          _,  []       => last
  | remainDist, p₀, p₁ :: ps =>
    let dist := calcDistance3d p₀.position p₁.position
    if remainDist < dist then
      if remainDist ≤ 0.0 then p₀
      else lerpPose p₀ p₁ (remainDist / dist)
    else poseAfterDistanceFrom last (remainDist - dist) p₁ ps

def findTrajectoryPoseAfterDistance (srcIdx : ℕ) (distance : α)
    (traj : List (TrajectoryPoint α)) : Except Failure (PoseMsg α) := do
  let last ← vectorAt traj (traj.length - 1)
  match (traj.drop srcIdx).map (·.pose) with
  | []      => return last.pose
  | p :: ps => return poseAfterDistanceFrom last.pose distance p ps

end

-- None of the functions fails on a trajectory that has a point.
section

variable {α : Type} [CppMath α] {traj : List (TrajectoryPoint α)} {pose : PoseMsg α}
  {maxDist maxYaw wheelBase : α} {i idx : ℕ}

theorem calcStopDistance_returns (h : traj ≠ []) :
    Returns (calcStopDistance pose traj maxDist maxYaw) fun _ => True := by
  have hl := List.length_pos_iff.mpr h
  have he : (searchZeroVelocityIndex traj).getD (traj.length - 1) < traj.length := by
    rcases hz : searchZeroVelocityIndex traj with - | j
    · exact Nat.sub_lt hl Nat.one_pos
    · exact searchZeroVelocityIndex_lt hz
  refine (findFirstNearestSegmentIndex_returns h).bind fun j hj => ?_
  refine (vectorAt_returns he).bind fun endPoint _ => ?_
  refine (calcSignedArcLengthBetween_returns h ?_).bind fun _ _ => .pure trivial
  split <;> omega

theorem nextIdxFrom_lt {start : PointMsg α} (h : nextIdxFrom start wheelBase i traj = some idx) :
    idx < i + traj.length := by
  induction traj generalizing i with
  | nil => cases h
  | cons p ps ih =>
    rw [nextIdxFrom] at h
    rw [List.length_cons]
    split at h
    · cases h
      omega
    · have := ih h
      omega

theorem getPitchByTraj_returns (h : idx < traj.length) :
    Returns (getPitchByTraj traj idx wheelBase) fun _ => True := by
  refine .ite (fun _ => .pure trivial) fun hl => (vectorAt_returns h).bind fun start _ => ?_
  dsimp only
  split
  case h_1 j hj =>
    have hj := nextIdxFrom_lt hj
    rw [List.length_drop] at hj
    refine (vectorAt_returns h).bind fun _ _ => ?_
    exact (vectorAt_returns (by omega)).bind fun _ _ => .pure trivial
  case h_2 =>
    refine (vectorAt_returns (by omega)).bind fun _ _ => ?_
    exact (vectorAt_returns (by omega)).bind fun _ _ => .pure trivial

variable [Slerp α]

theorem lerpTrajectoryPoint_returns (h : traj ≠ []) :
    Returns (lerpTrajectoryPoint traj pose maxDist maxYaw) fun r => r.2 + 1 ≤ traj.length := by
  have hl := List.length_pos_iff.mpr h
  refine .ite (fun he => absurd (List.isEmpty_iff.mp he) h) fun _ => ?_
  refine .ite (fun _ => (vectorAt_returns hl).bind fun _ _ => .pure hl) fun h₁ => ?_
  refine (findFirstNearestSegmentIndex_returns h).bind fun j hj => ?_
  refine .ite (fun _ => ?_) fun hn => ?_
  · exact (vectorAt_returns (Nat.sub_lt hl Nat.one_pos)).bind fun _ _ => .pure (by omega)
  · have hj' : j + 1 < traj.length := by omega
    refine calcLongitudinalOffset_returns.bind fun _ _ => ?_
    refine (calcSignedArcLength_returns (.inr (by omega))).bind fun _ _ => ?_
    refine (vectorAt_returns (Nat.lt_of_succ_lt hj')).bind fun _ _ => ?_
    exact (vectorAt_returns hj').bind fun _ _ => .pure hj'.le

theorem findTrajectoryPoseAfterDistance_returns {distance : α} (h : traj ≠ []) :
    Returns (findTrajectoryPoseAfterDistance idx distance traj) fun _ => True := by
  have hl := List.length_pos_iff.mpr h
  refine (vectorAt_returns (Nat.sub_lt hl Nat.one_pos)).bind fun _ _ => ?_
  split <;> exact .pure trivial

end
end SafetyIsland.LongitudinalUtils
