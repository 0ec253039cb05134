import SafetyIsland.Fallible.Vector
import SafetyIsland.MotionUtils.Geometry

namespace SafetyIsland.MotionUtils

open Fallible UniverseUtils CppMath

section

variable {α : Type}

def validateNonEmpty (points : List α) : Except Failure Unit :=
  if points.isEmpty then
    .error (.invalidArgument "[autoware_motion_utils] validateNonEmpty(): Points is empty.")
  else .ok ()

variable [CppMath α]

-- What a pass over the points has found so far.
structure Search (α : Type) where
  minSquaredDist      : α
  minIdx              : ℕ
  isWithinConstraints : Bool

def Search.start : Search α :=
  ⟨maxValue, 0, false⟩

-- One pass from the index `i` on. It ends behind the first points that meet the constraints.
def searchFrom (meets : TrajectoryPoint α → Bool) (point : PointMsg α) :
    ℕ → Search α → List (TrajectoryPoint α) → Search α
  | _, s, []      => s
  | i, s, p :: ps =>
    if !meets p then
      if s.isWithinConstraints then s else searchFrom meets point (i + 1) s ps
    else
      let squaredDist := calcSquaredDistance2d p.pose.position point
      if s.minSquaredDist ≤ squaredDist then searchFrom meets point (i + 1) s ps
      else searchFrom meets point (i + 1) ⟨squaredDist, i, true⟩ ps

def findNearestIndexFrom (point : PointMsg α) :
    ℕ → α × ℕ → List (TrajectoryPoint α) → ℕ
  | _, s, []      => s.2
  | i, s, p :: ps =>
    let dist := calcSquaredDistance2d p.pose.position point
    findNearestIndexFrom point (i + 1) (if dist < s.1 then (dist, i) else s) ps

def findNearestIndex (points : List (TrajectoryPoint α)) (point : PointMsg α) :
    Except Failure ℕ := do
  validateNonEmpty points
  return findNearestIndexFrom point 0 (maxValue, 0) points

def withinDist (pose : PoseMsg α) (distThreshold : α) (p : TrajectoryPoint α) : Bool :=
  ¬distThreshold * distThreshold < calcSquaredDistance2d p.pose.position pose.position

def withinYaw (pose : PoseMsg α) (yawThreshold : α) (p : TrajectoryPoint α) : Bool :=
  ¬yawThreshold < fabs (calcYawDeviation p.pose pose)

def findFirstNearestIndexWithSoftConstraints (points : List (TrajectoryPoint α))
    (pose : PoseMsg α) (distThreshold yawThreshold : α) : Except Failure ℕ := do
  validateNonEmpty points
  let both := searchFrom (fun p => withinDist pose distThreshold p && withinYaw pose yawThreshold p)
    pose.position 0 .start points
  if both.isWithinConstraints then
    return both.minIdx
  let dist := searchFrom (withinDist pose distThreshold) pose.position 0 .start points
  if dist.isWithinConstraints then
    return dist.minIdx
  findNearestIndex points pose.position

-- Two points that the code takes for one.
def overlaps (prevP currP : TrajectoryPoint α) : Bool :=
  fabs (prevP.pose.position.x - currP.pose.position.x) < 1.0e-8 ∧
    fabs (prevP.pose.position.y - currP.pose.position.y) < 1.0e-8

def removeOverlapFrom : TrajectoryPoint α → List (TrajectoryPoint α) →
    List (TrajectoryPoint α)
  | _,     []      => []
  | prevP, p :: ps =>
    if overlaps prevP p then removeOverlapFrom prevP ps else p :: removeOverlapFrom p ps

def removeOverlapPoints (points : List (TrajectoryPoint α)) (startIdx : ℕ) :
    List (TrajectoryPoint α) :=
  match points.drop startIdx with
  | []      => points
  | p :: ps => points.take startIdx ++ p :: removeOverlapFrom p ps

-- The length, or `none` for the NaN that the code returns for an index without a segment.
def calcLongitudinalOffsetToSegment (points : List (TrajectoryPoint α)) (segIdx : ℕ)
    (pTarget : PointMsg α) : Except Failure (Option α) := do
  if segIdx + 1 ≥ points.length then
    return none
  let overlapRemovedPoints := removeOverlapPoints points segIdx
  if segIdx + 1 ≥ overlapRemovedPoints.length then
    return some 0.0
  let pFront := (← vectorAt overlapRemovedPoints segIdx).pose.position
  let pBack := (← vectorAt overlapRemovedPoints (segIdx + 1)).pose.position
  let segX := pBack.x - pFront.x
  let segY := pBack.y - pFront.y
  let dot := segX * (pTarget.x - pFront.x) + segY * (pTarget.y - pFront.y) + 0.0 * 0.0
  return some (dot / sqrt (segX * segX + segY * segY + 0.0 * 0.0))

def findFirstNearestSegmentIndexWithSoftConstraints (points : List (TrajectoryPoint α))
    (pose : PoseMsg α) (distThreshold yawThreshold : α) : Except Failure ℕ := do
  let nearestIdx ← findFirstNearestIndexWithSoftConstraints points pose distThreshold yawThreshold
  if nearestIdx = 0 then
    return 0
  if nearestIdx = points.length - 1 then
    return points.length - 2
  let signedLength ← calcLongitudinalOffsetToSegment points nearestIdx pose.position
  if signedLength.any (· ≤ 0.0) then
    return nearestIdx - 1
  return nearestIdx

-- The overload that searches the whole container.
def searchZeroVelocityIndex (points : List (TrajectoryPoint α)) : Option ℕ :=
  points.findIdx? fun p => fabs p.longitudinalVelocityMps < 1e-3

-- The length from `src` over the next `n` segments.
def arcLengthOver (points : List (TrajectoryPoint α)) (src n : ℕ) : Except Failure α :=
  (List.range' src n).foldlM (fun distSum i => do
    let p ← vectorAt points i
    let q ← vectorAt points (i + 1)
    return distSum + calcDistance2d p.pose.position q.pose.position) 0.0

-- The overload between two indices.
def calcSignedArcLength (points : List (TrajectoryPoint α)) (srcIdx dstIdx : ℕ) :
    Except Failure α :=
  if points.isEmpty then .ok 0.0
  else if srcIdx > dstIdx then (-·) <$> arcLengthOver points dstIdx (srcIdx - dstIdx)
  else arcLengthOver points srcIdx (dstIdx - srcIdx)

-- The overload between two points on their segments.
def calcSignedArcLengthBetween (points : List (TrajectoryPoint α)) (srcPoint : PointMsg α)
    (srcSegIdx : ℕ) (dstPoint : PointMsg α) (dstSegIdx : ℕ) : Except Failure (Option α) := do
  validateNonEmpty points
  let onTraj ← calcSignedArcLength points srcSegIdx dstSegIdx
  let srcOffset ← calcLongitudinalOffsetToSegment points srcSegIdx srcPoint
  let dstOffset ← calcLongitudinalOffsetToSegment points dstSegIdx dstPoint
  return do return onTraj - (← srcOffset) + (← dstOffset)

end

section

variable {α : Type} {xs : List α} {i : ℕ} {x : α}

theorem validateNonEmpty_returns (h : xs ≠ []) : Returns (validateNonEmpty xs) fun _ => True := by
  rw [validateNonEmpty, if_neg (by simpa using h)]
  exact .ok trivial

end

-- Every index that a search returns is the index of a point.
section

variable {α : Type} [CppMath α] {points ps : List (TrajectoryPoint α)} {point : PointMsg α}
  {pose : PoseMsg α} {distThreshold yawThreshold : α} {i n segIdx : ℕ} {p : TrajectoryPoint α}

theorem searchFrom_minIdx_lt {meets : TrajectoryPoint α → Bool} {s : Search α}
    (hs : s.isWithinConstraints = true → s.minIdx < i)
    (h : (searchFrom meets point i s ps).isWithinConstraints = true) :
    (searchFrom meets point i s ps).minIdx < i + ps.length := by
  induction ps generalizing i s with
  | nil => exact hs h
  | cons p ps ih =>
    have hn : i + (p :: ps).length = i + 1 + ps.length := by
      rw [List.length_cons]
      omega
    rw [searchFrom] at h ⊢
    dsimp only at h ⊢
    rw [hn]
    have hs' : s.isWithinConstraints = true → s.minIdx < i + 1 := fun hw => (hs hw).trans i.lt_succ_self
    split_ifs at h ⊢ with hm hw
    · exact (hs' hw).trans_le (Nat.le_add_right _ _)
    · exact ih hs' h
    · exact ih hs' h
    · exact ih (fun _ => i.lt_succ_self) h

theorem findNearestIndexFrom_lt {s : α × ℕ} (hs : s.2 < i + ps.length) :
    findNearestIndexFrom point i s ps < i + ps.length := by
  induction ps generalizing i s with
  | nil => exact hs
  | cons p ps ih =>
    rw [findNearestIndexFrom, show i + (p :: ps).length = i + 1 + ps.length by
      rw [List.length_cons]
      omega]
    rw [show i + (p :: ps).length = i + 1 + ps.length by
      rw [List.length_cons]
      omega] at hs
    apply ih
    split_ifs
    · exact Nat.lt_of_lt_of_le i.lt_succ_self (Nat.le_add_right _ _)
    · exact hs

theorem findNearestIndex_returns (h : points ≠ []) :
    Returns (findNearestIndex points point) (· < points.length) := by
  have hl := List.length_pos_iff.mpr h
  refine (validateNonEmpty_returns h).bind fun _ _ => .pure ?_
  simpa using findNearestIndexFrom_lt (i := 0) (s := (maxValue, 0)) (by simpa using hl)

theorem findFirstNearestIndex_returns (h : points ≠ []) :
    Returns (findFirstNearestIndexWithSoftConstraints points pose distThreshold yawThreshold)
      (· < points.length) := by
  have hfound {meets : TrajectoryPoint α → Bool}
      (hw : (searchFrom meets pose.position 0 .start points).isWithinConstraints = true) :
      (searchFrom meets pose.position 0 .start points).minIdx < points.length := by
    simpa using searchFrom_minIdx_lt (fun hs => (Bool.false_ne_true hs).elim) hw
  refine (validateNonEmpty_returns h).bind fun _ _ => ?_
  exact .ite (fun hw => .pure (hfound hw)) fun _ =>
    .ite (fun hw => .pure (hfound hw)) fun _ => findNearestIndex_returns h

theorem removeOverlapPoints_ne_nil (h : points ≠ []) (startIdx : ℕ) :
    removeOverlapPoints points startIdx ≠ [] := by
  rw [removeOverlapPoints]
  split
  case h_1 => exact h
  case h_2 => simp

theorem calcLongitudinalOffset_returns :
    Returns (calcLongitudinalOffsetToSegment points segIdx point) fun _ => True := by
  refine .ite (fun _ => .pure trivial) fun _ => .ite (fun _ => .pure trivial) fun h => ?_
  have h := not_le.mp h
  refine (vectorAt_returns (Nat.lt_of_succ_lt h)).bind fun _ _ => ?_
  exact (vectorAt_returns h).bind fun _ _ => .pure trivial

theorem findFirstNearestSegmentIndex_returns (h : points ≠ []) :
    Returns (findFirstNearestSegmentIndexWithSoftConstraints points pose distThreshold yawThreshold)
      fun i => i ≤ points.length - 2 := by
  refine (findFirstNearestIndex_returns h).bind fun i hi => ?_
  refine .ite (fun _ => .pure (Nat.zero_le _)) fun h₀ => ?_
  refine .ite (fun _ => .pure le_rfl) fun h₁ => ?_
  refine calcLongitudinalOffset_returns.bind fun len _ => ?_
  exact .ite (fun _ => .pure (by omega)) fun _ => .pure (by omega)

theorem arcLengthOver_returns (h : n = 0 ∨ i + n < points.length) :
    Returns (arcLengthOver points i n) fun _ => True := by
  refine .foldlM trivial fun j hj _ _ => ?_
  have hj := List.mem_range'_1.mp hj
  have hl : j + 1 < points.length := by omega
  refine (vectorAt_returns (Nat.lt_of_succ_lt hl)).bind fun _ _ => ?_
  exact (vectorAt_returns hl).bind fun _ _ => .pure trivial

theorem calcSignedArcLength_returns {dst : ℕ} (h : i = dst ∨ max i dst < points.length) :
    Returns (calcSignedArcLength points i dst) fun _ => True := by
  refine .ite (fun _ => .ok trivial) fun _ => .ite (fun hd => .map ?_) fun hd => ?_
  · exact arcLengthOver_returns (.inr (by omega))
  · exact arcLengthOver_returns (by omega)

theorem calcSignedArcLengthBetween_returns {src dst : PointMsg α} {j : ℕ} (h : points ≠ [])
    (hij : i = j ∨ max i j < points.length) :
    Returns (calcSignedArcLengthBetween points src i dst j) fun _ => True := by
  refine (validateNonEmpty_returns h).bind fun _ _ => ?_
  refine (calcSignedArcLength_returns hij).bind fun _ _ => ?_
  refine calcLongitudinalOffset_returns.bind fun _ _ => ?_
  exact calcLongitudinalOffset_returns.bind fun _ _ => .pure trivial

theorem searchZeroVelocityIndex_lt (h : searchZeroVelocityIndex points = some i) :
    i < points.length :=
  (List.findIdx?_eq_some_iff_getElem.mp h).1

end
end SafetyIsland.MotionUtils
