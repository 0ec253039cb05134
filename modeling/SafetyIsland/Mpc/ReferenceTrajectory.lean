import SafetyIsland.Mpc.Preparation

namespace SafetyIsland

open UniverseUtils CppMath Libm

namespace UniverseUtils

variable {α : Type} [CppMath α]

def calcAzimuthAngle (pFrom pTo : PointMsg α) : α :=
  let dx := pTo.x - pFrom.x
  let dy := pTo.y - pFrom.y
  atan2 dy dx

def isDrivingForward (srcPose dstPose : PoseMsg α) : Bool :=
  let srcYaw := getYaw srcPose.orientation
  let poseDirectionYaw := calcAzimuthAngle srcPose.position dstPose.position
  fabs (MPCUtils.normalizeRadian (srcYaw - poseDirectionYaw)) < MPCUtils.Angular.pi / 2.0

def calcCurvature (p1 p2 p3 : PointMsg α) : α :=
  let denominator := calcDistance2d p1 p2 * calcDistance2d p2 p3 * calcDistance2d p3 p1
  if fabs denominator < 1e-10 then 0.0
  else 2.0 * ((p2.x - p1.x) * (p3.y - p1.y) - (p2.y - p1.y) * (p3.x - p1.x)) / denominator

def cross (a b : PointMsg α) : PointMsg α :=
  ⟨a.y * b.z - a.z * b.y, a.z * b.x - a.x * b.z, a.x * b.y - a.y * b.x⟩

-- `Eigen::Quaterniond::operator*` of a vector.
def QuaternionMsg.rotate (q : QuaternionMsg α) (v : PointMsg α) : PointMsg α :=
  let vec : PointMsg α := ⟨q.x, q.y, q.z⟩
  let uv := cross vec v
  let uv : PointMsg α := ⟨uv.x + uv.x, uv.y + uv.y, uv.z + uv.z⟩
  let uuv := cross vec uv
  ⟨v.x + q.w * uv.x + uuv.x, v.y + q.w * uv.y + uuv.y, v.z + q.w * uv.z + uuv.z⟩

def QuaternionMsg.mul (a b : QuaternionMsg α) : QuaternionMsg α where
  x := a.w * b.x + a.x * b.w + a.y * b.z - a.z * b.y
  y := a.w * b.y + a.y * b.w + a.z * b.x - a.x * b.z
  z := a.w * b.z + a.z * b.w + a.x * b.y - a.y * b.x
  w := a.w * b.w - a.x * b.x - a.y * b.y - a.z * b.z

def QuaternionMsg.normalize (q : QuaternionMsg α) : QuaternionMsg α :=
  let squaredNorm := q.x * q.x + q.y * q.y + q.z * q.z + q.w * q.w
  if 0.0 < squaredNorm then
    ⟨q.x / sqrt squaredNorm, q.y / sqrt squaredNorm, q.z / sqrt squaredNorm,
      q.w / sqrt squaredNorm⟩
  else q

def calcOffsetPose (p : PoseMsg α) (x y z yaw : α) : PoseMsg α :=
  let rotatedOffset := p.orientation.rotate ⟨x, y, z⟩
  { position    := ⟨p.position.x + rotatedOffset.x, p.position.y + rotatedOffset.y,
      p.position.z + rotatedOffset.z⟩
    orientation := (p.orientation.mul (createQuaternionFromYaw yaw)).normalize }

end UniverseUtils

namespace MotionUtils

def isDrivingForward {α : Type} [CppMath α] : List (TrajectoryPoint α) → Option Bool
  | first :: second :: _ => some (UniverseUtils.isDrivingForward first.pose second.pose)
  | _                    => none

end MotionUtils

namespace MoveAverageFilter

variable {α : Type} [CppMath α]

def numTmp (num size i : ℕ) : ℕ :=
  if i < num ∨ size < i + num + 1 then min i (size - i - 1) else num

def window (u : List α) (i n : ℕ) : α × α :=
  (List.range (2 * n + 1)).foldl (fun s j =>
    if n ≤ i + j ∧ i + j - n < u.length then (s.1 + u.getD (i + j - n) 0.0, s.2 + 1.0) else s)
    (0.0, 0.0)

-- The filtered values, unless there are too few. The number is not negative.
def filtVector (num : ℕ) (u : List α) : Option (List α) :=
  if u.length < num then none
  else some <| (List.range u.length).map fun i =>
    let sum := window u i (numTmp num u.length i)
    sum.1 / sum.2

end MoveAverageFilter

namespace MPCUtils

variable {α : Type} [CppMath α]

def fromMessage (p : TrajectoryPoint α) : MPCTrajectoryPoint α where
  x            := p.pose.position.x
  y            := p.pose.position.y
  z            := p.pose.position.z
  yaw          := getYaw p.pose.orientation
  vx           := p.longitudinalVelocityMps
  k            := 0.0
  smoothK      := 0.0
  relativeTime := 0.0

def convertToMPCTrajectory [Spatial α] (input : List (TrajectoryPoint α)) : MPCTrajectory α :=
  calcMPCTrajectoryTime (input.foldl (fun output p => output.pushBack (fromMessage p)) .cleared)

def MPCTrajectory.toTrajectoryPoints (t : MPCTrajectory α) : List (TrajectoryPoint α) :=
  (List.range t.x.length).map t.messageAt

def calcTrajectoryYawFromXY (traj : MPCTrajectory α) (isForwardShift : Bool) : MPCTrajectory α :=
  let n := traj.yaw.length
  if n < 3 then traj
  else if n ≠ traj.vx.length then traj
  else
    let yawAt (i : ℕ) : α :=
      let dx := traj.x.getD (i + 1) 0.0 - traj.x.getD (i - 1) 0.0
      let dy := traj.y.getD (i + 1) 0.0 - traj.y.getD (i - 1) 0.0
      if isForwardShift then atan2 dy dx else atan2 dy dx + Angular.pi
    let yaw := (List.range' 1 (n - 2)).foldl (fun yaw i => yaw.set i (yawAt i)) traj.yaw
    let yaw := yaw.set 0 (yaw.getD 1 0.0)
    { traj with yaw := yaw.set (n - 1) (yaw.getD (n - 2) 0.0) }

-- The curvature of a trajectory with a point. The number is not negative.
def calcTrajectoryCurvature (curvatureSmoothingNum : ℕ) (traj : MPCTrajectory α) : List α :=
  let n := traj.x.length
  let maxSmoothingNum := (n - 1) / 2
  let L := min curvatureSmoothingNum maxSmoothingNum
  let curvature := (List.range' L (n - L - L)).foldl (fun curvature i =>
    curvature.set i (calcCurvature (traj.pointAt (i - L)) (traj.pointAt i) (traj.pointAt (i + L))))
    (List.replicate n 0.0)
  -- The first and the last curvatures are copied from the next value.
  (List.range (min L n)).foldl (fun curvature i =>
    let curvature := curvature.set i (curvature.getD (min L (n - 1)) 0.0)
    curvature.set (n - i - 1) (curvature.getD (max (n - L - 1) 0) 0.0)) curvature

def extendOnce (xOffset dt extendVel : α) (s : PoseMsg α × MPCTrajectory α) :
    PoseMsg α × MPCTrajectory α :=
  let pose := calcOffsetPose s.1 xOffset 0.0 0.0 0.0
  let back := s.2.back
  (pose, s.2.pushBack {
    x            := pose.position.x
    y            := pose.position.y
    z            := pose.position.z
    yaw          := back.yaw
    vx           := extendVel
    k            := back.k
    smoothK      := back.smoothK
    relativeTime := back.relativeTime + dt })

def extendTrajectoryInYawDirection (yaw interval : α) (isForwardShift : Bool)
    (traj : MPCTrajectory α) : MPCTrajectory α :=
  let traj := { traj with yaw := Interpolation.setLast traj.yaw yaw }
  let extendedPose := (traj.messageAt (traj.size - 1)).pose
  let xOffset := if isForwardShift then interval else -interval
  let dt := interval / 10.0
  let numExtendedPoint := toSize (10.0 / interval)
  ((extendOnce xOffset dt 10.0)^[numExtendedPoint] (extendedPose, traj)).2

end MPCUtils

namespace Lateral

open Fallible MotionUtils MPCUtils OnReal

structure TrajectoryFilteringParam (α : Type) where
  trajResampleDist                  : α
  extendTrajectoryForEndYawControl  : Bool
  enablePathSmoothing               : Bool
  pathFilterMovingAveNum            : ℕ
  curvatureSmoothingNumTraj         : ℕ
  curvatureSmoothingNumRefSteer     : ℕ

variable {α σ : Type} [CppMath α]

def smoothPath (num : ℕ) (traj : MPCTrajectory α) : MPCTrajectory α :=
  let filtered : Option (MPCTrajectory α) := do
    let x ← MoveAverageFilter.filtVector num traj.x
    let y ← MoveAverageFilter.filtVector num traj.y
    let yaw ← MoveAverageFilter.filtVector num traj.yaw
    let vx ← MoveAverageFilter.filtVector num traj.vx
    return { traj with x := x, y := y, yaw := yaw, vx := vx }
  filtered.getD traj

def finishReference (param : TrajectoryFilteringParam α) (endYaw : α) (isForwardShift : Bool)
    (resampled : MPCTrajectory α) : MPCTrajectory α :=
  let traj :=
    if param.enablePathSmoothing ∧ 2 * param.pathFilterMovingAveNum < resampled.size then
      smoothPath param.pathFilterMovingAveNum resampled
    else resampled
  let traj :=
    if param.extendTrajectoryForEndYawControl then
      extendTrajectoryInYawDirection endYaw param.trajResampleDist isForwardShift traj
    else traj
  let traj := calcTrajectoryYawFromXY traj isForwardShift
  let traj := { traj with yaw := convertEulerAngleToMonotonic traj.yaw }
  let traj := { traj with
    k       := calcTrajectoryCurvature param.curvatureSmoothingNumTraj traj
    smoothK := calcTrajectoryCurvature param.curvatureSmoothingNumRefSteer traj }
  let traj := { traj with vx := Interpolation.setLast traj.vx 0.0 }
  traj.pushBack { traj.back with
    relativeTime := traj.back.relativeTime + 100.0
    vx           := 0.0 }

-- `fuel` bounds the passes of the loops over the arc length. Without a segment there is no offset,
-- and the interpolation exits for every number in its place.
def MPC.setReferenceTrajectory [Spatial α] (m : MPC α σ) (fuel : ℕ)
    (trajectoryMsg : List (TrajectoryPoint α)) (param : TrajectoryFilteringParam α)
    (currentKinematics : Kinematics α) : Except Failure (MPC α σ) := do
  let nearestSegIdx ← findFirstNearestSegmentIndexWithSoftConstraints trajectoryMsg
    currentKinematics.pose m.egoNearestDistThreshold m.egoNearestYawThreshold
  let egoOffsetToSegment ← calcLongitudinalOffsetToSegment trajectoryMsg nearestSegIdx
    currentKinematics.pose.position
  let mpcTrajRaw := convertToMPCTrajectory trajectoryMsg
  match ← resampleMPCTrajectoryByDistance fuel mpcTrajRaw param.trajResampleDist nearestSegIdx
    (egoOffsetToSegment.getD 0.0) with
  | (false, _)               => return m
  | (true, mpcTrajResampled) =>
    let isForwardShift :=
      (MotionUtils.isDrivingForward mpcTrajResampled.toTrajectoryPoints).getD m.isForwardShift
    let reference := finishReference param (mpcTrajRaw.yaw.getLastD 0.0) isForwardShift
      mpcTrajResampled
    let m := { m with isForwardShift := isForwardShift }
    if reference.size = 0 then
      return m
    return { m with referenceTrajectory := reference }

section

variable {m : MPC ℝ σ} {t : MPCTrajectory ℝ} {param : TrajectoryFilteringParam ℝ}
  {kinematics : Kinematics ℝ} {n num : ℕ} {forward : Bool} {yaw : ℝ}
  {msg : List (TrajectoryPoint ℝ)}

omit [CppMath α] in
theorem length_foldl_set {is : List ℕ} {f : List α → ℕ → List α}
    (hf : ∀ xs i, (f xs i).length = xs.length) (xs : List α) : (is.foldl f xs).length = xs.length := by
  induction is generalizing xs with
  | nil => rfl
  | cons i is ih => rw [List.foldl_cons, ih, hf]

theorem length_filtVector {u v : List α} (h : MoveAverageFilter.filtVector num u = some v) :
    v.length = u.length := by
  rw [MoveAverageFilter.filtVector] at h
  split_ifs at h
  cases h
  simp

omit [CppMath α] in
theorem length_setLast (xs : List α) (x : α) : (Interpolation.setLast xs x).length = xs.length :=
  List.length_set ..

theorem length_calcTrajectoryCurvature (num : ℕ) (t : MPCTrajectory α) :
    (calcTrajectoryCurvature num t).length = t.x.length := by
  rw [calcTrajectoryCurvature, length_foldl_set fun _ _ => by simp,
    length_foldl_set fun _ _ => by simp, List.length_replicate]

theorem columns_smoothPath {t : MPCTrajectory α} (h : t.Columns n) : (smoothPath num t).Columns n := by
  rw [smoothPath]
  cases hx : MoveAverageFilter.filtVector num t.x with
  | none => exact h
  | some x =>
    cases hy : MoveAverageFilter.filtVector num t.y with
    | none => exact h
    | some y =>
      cases hyaw : MoveAverageFilter.filtVector num t.yaw with
      | none => exact h
      | some yaw =>
        cases hvx : MoveAverageFilter.filtVector num t.vx with
        | none => exact h
        | some vx =>
          exact { h with
            x   := (length_filtVector hx).trans h.x
            y   := (length_filtVector hy).trans h.y
            yaw := (length_filtVector hyaw).trans h.yaw
            vx  := (length_filtVector hvx).trans h.vx }

theorem columns_extended {t : MPCTrajectory α} (h : t.Columns n) (yaw interval : α) (forward : Bool) :
    ∃ k, (extendTrajectoryInYawDirection yaw interval forward t).Columns (n + k) := by
  have hstep (k : ℕ) (xOffset dt vel : α) (s : PoseMsg α × MPCTrajectory α) (hs : s.2.Columns n) :
      ((extendOnce xOffset dt vel)^[k] s).2.Columns (n + k) := by
    induction k with
    | zero => exact hs
    | succ k ih =>
      rw [Function.iterate_succ_apply']
      exact ih.pushBack
  exact ⟨_, hstep _ _ _ _ _ { h with yaw := (length_setLast _ _).trans h.yaw }⟩

theorem columns_calcTrajectoryYaw {t : MPCTrajectory α} (h : t.Columns n) (forward : Bool) :
    (calcTrajectoryYawFromXY t forward).Columns n := by
  rw [calcTrajectoryYawFromXY]
  dsimp only
  split
  case isTrue  => exact h
  case isFalse =>
    split
    case isTrue  => exact h
    case isFalse =>
      refine { h with yaw := ?_ }
      rw [List.length_set, List.length_set, length_foldl_set fun _ _ => by simp, h.yaw]

theorem finishReference_eq {t : MPCTrajectory α} {param : TrajectoryFilteringParam α} {yaw : α}
    (h : t.Columns n) : ∃ (k : ℕ) (u : MPCTrajectory α), u.Columns (n + k) ∧
      (∃ vx, u.vx = Interpolation.setLast vx 0.0) ∧
      finishReference param yaw forward t = u.pushBack { u.back with
        relativeTime := u.back.relativeTime + 100.0, vx := 0.0 } := by
  rw [finishReference]
  dsimp only
  generalize hs : (if param.enablePathSmoothing = true ∧ 2 * param.pathFilterMovingAveNum < t.size then
    smoothPath param.pathFilterMovingAveNum t else t) = smoothed
  have hsmoothed : smoothed.Columns n := by
    rw [← hs]
    split_ifs
    · exact columns_smoothPath h
    · exact h
  generalize he : (if param.extendTrajectoryForEndYawControl = true then
    extendTrajectoryInYawDirection yaw param.trajResampleDist forward smoothed else smoothed) = extended
  obtain ⟨k, hk⟩ : ∃ k, extended.Columns (n + k) := by
    rw [← he]
    split_ifs
    · exact columns_extended hsmoothed _ _ _
    · exact ⟨0, hsmoothed⟩
  have hy := columns_calcTrajectoryYaw hk forward
  refine ⟨k, _, ?_, ?_, rfl⟩
  case refine_1 => exact { hy with
    yaw     := (length_convertEulerAngleToMonotonic _).trans hy.yaw
    k       := (length_calcTrajectoryCurvature _ _).trans hy.x
    smoothK := (length_calcTrajectoryCurvature _ _).trans hy.x
    vx      := (length_setLast _ _).trans hy.vx }
  case refine_2 => exact ⟨_, rfl⟩

omit [CppMath α] in
theorem foldl_pushBack {β : Type} (ps : List β) (f : β → MPCTrajectoryPoint α) {t : MPCTrajectory α}
    (h : t.Columns n) :
    (ps.foldl (fun t p => t.pushBack (f p)) t).Columns (n + ps.length) ∧
      (ps.foldl (fun t p => t.pushBack (f p)) t).x = t.x ++ ps.map (fun p => (f p).x) ∧
      (ps.foldl (fun t p => t.pushBack (f p)) t).y = t.y ++ ps.map (fun p => (f p).y) := by
  induction ps generalizing t n with
  | nil => simpa using h
  | cons p ps ih =>
    obtain ⟨hc, hx, hy⟩ := ih (h.pushBack (p := f p))
    refine ⟨?_, ?_, ?_⟩
    · rw [List.length_cons, ← Nat.add_assoc, Nat.add_right_comm]
      exact hc
    · rw [List.foldl_cons, hx]
      simp [MPCTrajectory.pushBack]
    · rw [List.foldl_cons, hy]
      simp [MPCTrajectory.pushBack]

theorem columns_convert (h : msg ≠ []) :
    (convertToMPCTrajectory msg).Columns msg.length ∧
      (convertToMPCTrajectory msg).x = msg.map (·.pose.position.x) ∧
      (convertToMPCTrajectory msg).y = msg.map (·.pose.position.y) := by
  obtain ⟨hc, hx, hy⟩ := foldl_pushBack msg fromMessage
    (show (MPCTrajectory.cleared (α := ℝ)).Columns 0 from ⟨rfl, rfl, rfl, rfl, rfl, rfl, rfl, rfl⟩)
  rw [Nat.zero_add] at hc
  exact ⟨hc.calcMPCTrajectoryTime (List.length_pos_iff.mpr h), hx, hy⟩

def Distinct (msg : List (TrajectoryPoint ℝ)) : Prop :=
  msg.IsChain fun p q =>
    p.pose.position.x ≠ q.pose.position.x ∨ p.pose.position.y ≠ q.pose.position.y

theorem arcLength_sorted (h : Distinct msg) (hne : msg ≠ []) :
    (calcMPCTrajectoryArcLength (convertToMPCTrajectory msg)).Pairwise (· < ·) := by
  obtain ⟨hc, hx, hy⟩ := columns_convert hne
  refine @foldl_sums_sorted _ _ (fun i hi => ?_) 0.0 [] (List.pairwise_singleton _ _)
  rw [hc.size_eq, List.mem_range'_1] at hi
  obtain ⟨j, rfl⟩ := Nat.exists_eq_add_of_le' hi.1
  have hj : j + 1 < msg.length := by omega
  have hd := List.isChain_iff_getElem.mp h j hj
  rw [MPCUtils.calcDistance2d, hx, hy, Nat.add_sub_cancel]
  simp only [List.getD_eq_getElem?_getD, List.getElem?_map, List.getElem?_eq_getElem hj,
    List.getElem?_eq_getElem (Nat.lt_of_succ_lt hj), Option.map_some, Option.getD_some]
  refine Real.sqrt_pos.mpr ?_
  rcases hd with hd | hd
  · have := sq_pos_of_ne_zero (sub_ne_zero.mpr hd.symm)
    positivity
  · have := sq_pos_of_ne_zero (sub_ne_zero.mpr hd.symm)
    positivity

-- A reference stops at its last point, and stands there for 100 seconds more.
structure Stops (t : MPCTrajectory ℝ) (n : ℕ) : Prop where
  columns : t.Columns (n + 2)
  pose    : (t.messageAt (n + 1)).pose = (t.messageAt n).pose
  extra   : t.relativeTime.getD (n + 1) 0 = t.relativeTime.getD n 0 + 100
  last    : t.vx.getD (n + 1) 0 = 0
  stop    : t.vx.getD n 0 = 0

theorem getLastD_setLast {xs : List ℝ} {x d : ℝ} (h : xs ≠ []) :
    (Interpolation.setLast xs x).getLastD d = x := by
  obtain rfl | ⟨ys, y, rfl⟩ := xs.eq_nil_or_concat
  case inl => exact absurd rfl h
  case inr => simp [Interpolation.setLast]

theorem finishReference_stops (h : t.Columns n) (hn : 0 < n) :
    ∃ k, Stops (finishReference param yaw forward t) k := by
  obtain ⟨k, u, hu, ⟨vx, hvx⟩, heq⟩ : ∃ (k : ℕ) (u : MPCTrajectory ℝ), u.Columns (n + k) ∧
      (∃ vx, u.vx = Interpolation.setLast vx 0.0) ∧
      finishReference param yaw forward t = u.pushBack { u.back with
        relativeTime := u.back.relativeTime + 100.0, vx := 0.0 } := finishReference_eq h
  obtain ⟨j, hj⟩ := Nat.exists_eq_succ_of_ne_zero (show n + k ≠ 0 by omega)
  rw [hj] at hu
  have h0 : (0.0 : ℝ) = 0 := by norm_num
  rw [heq]
  refine ⟨j, hu.pushBack, pushBack_pose hu, pushBack_extra hu, ?_, ?_⟩
  · rw [MPCTrajectory.pushBack, getD_concat_last hu.vx, h0]
  · have hne : vx ≠ [] := by
      rintro rfl
      have := hu.vx
      rw [hvx] at this
      simp [Interpolation.setLast] at this
    rw [MPCTrajectory.pushBack, getD_concat hu.vx, hvx, getLastD_setLast hne, h0]

structure SameConfig (m m' : MPC ℝ σ) : Prop where
  param       : m'.param = m.param
  period      : m'.ctrlPeriod = m.ctrlPeriod
  inputBuffer : m'.inputBuffer = m.inputBuffer
  position    : m'.admissiblePositionError = m.admissiblePositionError
  yaw         : m'.admissibleYawErrorRad = m.admissibleYawErrorRad

theorem SameConfig.sane {m m' : MPC ℝ σ} (h : SameConfig m m') (hm : m.Sane) : m'.Sane :=
  hm.of_same h.param h.period (congrArg List.length h.inputBuffer)

theorem setReference_returns (hd : Distinct msg) (hl : 2 ≤ msg.length)
    (ht : 1e-6 ≤ (calcMPCTrajectoryArcLength (convertToMPCTrajectory msg)).getLastD 0)
    (hp : 1e-6 ≤ param.trajResampleDist) :
    ∃ passes, ∀ fuel > passes, Returns (m.setReferenceTrajectory fuel msg param kinematics) fun m' =>
      SameConfig m m' ∧ ∃ n, Stops m'.referenceTrajectory n := by
  have hne : msg ≠ [] := List.ne_nil_of_length_pos (by omega)
  obtain ⟨hc, -, -⟩ := columns_convert hne
  have hs := hc.size_eq
  obtain ⟨seg, hseg, hlt⟩ : Returns (findFirstNearestSegmentIndexWithSoftConstraints msg
      kinematics.pose m.egoNearestDistThreshold m.egoNearestYawThreshold) (· ≤ msg.length - 2) :=
    findFirstNearestSegmentIndex_returns hne
  obtain ⟨offset, hoffset, -⟩ : Returns (calcLongitudinalOffsetToSegment msg seg
      kinematics.pose.position) fun _ => True := calcLongitudinalOffset_returns
  obtain ⟨samples, passes, hw, hf⟩ := outputArcLength_wellFormed (offset.getD 0.0)
    (show 2 ≤ (convertToMPCTrajectory msg).size by omega) (arcLength_sorted hd hne) ht
    (show seg < (convertToMPCTrajectory msg).size by omega) hp
  obtain ⟨output, hout, hr⟩ := hw.resample (by omega) seg (offset.getD 0.0)
  have hpos : 0 < output.size := by
    rw [hout]
    exact List.length_pos_iff.mpr hw.nonempty
  refine ⟨passes, fun fuel hpasses => ?_⟩
  refine Returns.bind (P := (· = seg)) ⟨_, hseg, rfl⟩ ?_
  rintro _ rfl
  refine Returns.bind (P := (· = offset)) ⟨_, hoffset, rfl⟩ ?_
  rintro _ rfl
  refine Returns.bind (P := (· = (true, output))) ⟨_, hr fuel (hf fuel hpasses), rfl⟩ ?_
  rintro _ rfl
  obtain ⟨n, hn⟩ := @finishReference_stops output param output.size
    ((MotionUtils.isDrivingForward output.toTrajectoryPoints).getD m.isForwardShift)
    ((convertToMPCTrajectory msg).yaw.getLastD 0.0) (MPCTrajectory.columns hpos) hpos
  refine .ite (fun hz => absurd hz (by rw [hn.columns.size_eq]; omega)) fun _ => .pure ⟨?_, n, hn⟩
  exact ⟨rfl, rfl, rfl, rfl, rfl⟩

-- For a path without doubled points, every later calculation goes on to the optimization, unless the
-- vehicle is too far away from the path or turned away from it.
theorem MPC.setReferenceTrajectory_tracks (hm : m.Sane) (hd : Distinct msg) (hl : 2 ≤ msg.length)
    (ht : 1e-6 ≤ (calcMPCTrajectoryArcLength (convertToMPCTrajectory msg)).getLastD 0)
    (hp : 1e-6 ≤ param.trajResampleDist) :
    ∃ passes, ∀ fuel > passes, Returns (m.setReferenceTrajectory fuel msg param kinematics) fun m' =>
      (∃ n, Stops m'.referenceTrajectory n) ∧
      ∀ steer predicted kinematics', Returns (m'.prepare steer predicted kinematics') fun r =>
        m'.Answers kinematics' r ∧
          r ≠ .error "getting MPC Data (error in calculating nearest pose)." := by
  obtain ⟨passes, hr⟩ := @setReference_returns _ m param kinematics msg hd hl ht hp
  refine ⟨passes, fun fuel hf => (hr fuel hf).mono fun m' h => ?_⟩
  obtain ⟨hsame, n, hn⟩ := h
  refine ⟨⟨n, hn⟩, fun steer predicted kinematics' => ?_⟩
  refine (MPC.prepare_returns (hsame.sane hm) steer predicted kinematics').mono fun r hr => ⟨hr, ?_⟩
  cases hr with
  | empty h =>
    rw [hn.columns.size_eq] at h
    omega
  | far => simp
  | turned => simp
  | prepared => simp

end

section

local instance atLeastTwo_five : Nat.AtLeastTwo 5 := ⟨by decide⟩

noncomputable def metreMsg : List (TrajectoryPoint ℝ) :=
  [⟨⟨⟨0, 0, 0⟩, ⟨0, 0, 0, 1⟩⟩, 5, 0, 0, 0⟩, ⟨⟨⟨1, 0, 0⟩, ⟨0, 0, 0, 1⟩⟩, 5, 0, 0, 0⟩]

end

noncomputable def filtering : TrajectoryFilteringParam ℝ where
  trajResampleDist                 := 0.1
  extendTrajectoryForEndYawControl := true
  enablePathSmoothing              := true
  pathFilterMovingAveNum           := 2
  curvatureSmoothingNumTraj        := 3
  curvatureSmoothingNumRefSteer    := 3

theorem arcLength_metreMsg :
    calcMPCTrajectoryArcLength (convertToMPCTrajectory metreMsg) = [0, 1] := by
  have hne : metreMsg ≠ [] := List.cons_ne_nil _ _
  obtain ⟨hc, hx, hy⟩ := columns_convert hne
  have hx : (convertToMPCTrajectory metreMsg).x = [0, 1] := hx
  have hy : (convertToMPCTrajectory metreMsg).y = [0, 0] := hy
  have hs : (convertToMPCTrajectory metreMsg).size = 2 := hc.size_eq
  norm_num [calcMPCTrajectoryArcLength, MPCUtils.calcDistance2d, Libm.hypot, hx, hy, hs]

theorem MPC.setReferenceTrajectory_tracks_metre :
    ∃ passes, ∀ fuel > passes,
      Returns (crawling.setReferenceTrajectory fuel metreMsg filtering standing) fun m' =>
        (∃ n, Stops m'.referenceTrajectory n) ∧
        ∀ steer predicted kinematics', Returns (m'.prepare steer predicted kinematics') fun r =>
          m'.Answers kinematics' r ∧
            r ≠ .error "getting MPC Data (error in calculating nearest pose)." :=
  MPC.setReferenceTrajectory_tracks crawling_sane (by simp [Distinct, metreMsg]) (by decide)
    (by norm_num [arcLength_metreMsg]) (show (1e-6 : ℝ) ≤ 0.1 by norm_num)

end Lateral

end SafetyIsland
