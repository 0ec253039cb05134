import SafetyIsland.Mpc.Timing
import SafetyIsland.Mpc.Vehicle

namespace SafetyIsland.Lateral

open Fallible UniverseUtils MotionUtils MPCUtils CppMath OnReal

structure Kinematics (α : Type) where
  pose    : PoseMsg α
  linearX : α

structure MPCParam (α : Type) where
  predictionHorizon    : ℕ
  predictionDt         : α
  minPredictionLength  : α
  inputDelay           : α
  accelerationLimit    : α
  velocityTimeConstant : α

structure MPCData (α : Type) where
  nearestIdx     : ℕ
  nearestTime    : α
  nearestPose    : PoseMsg α
  steer          : α
  predictedSteer : α
  lateralErr     : α
  yawErr         : α

-- The part of the object that a calculation reads before it builds the matrices. `σ` are the states
-- of the vehicle model.
structure MPC (α σ : Type) where
  param                    : MPCParam α
  ctrlPeriod               : α
  egoNearestDistThreshold  : α
  egoNearestYawThreshold   : α
  admissiblePositionError  : α
  admissibleYawErrorRad    : α
  isForwardShift           : Bool
  inputBuffer              : List α
  referenceTrajectory      : MPCTrajectory α
  getInitialState          : MPCData α → σ
  -- A step over the control period, for a velocity, a curvature and an input.
  step                     : α → α → α → σ → σ

structure Prepared (α σ : Type) where
  data         : MPCData α
  x0Delayed    : σ
  predictionDt : α
  resampled    : MPCTrajectory α

namespace MPC

variable {α σ : Type} [CppMath α] (m : MPC α σ)

def applyVelocityDynamicsFilter [Spatial α] (input : MPCTrajectory α)
    (currentKinematics : Kinematics α) : Except Failure (MPCTrajectory α) := do
  let autowareTraj := convertToAutowareTrajectory input
  if autowareTraj.isEmpty then
    return input
  let nearestSegIdx ← findFirstNearestSegmentIndexWithSoftConstraints autowareTraj
    currentKinematics.pose m.egoNearestDistThreshold m.egoNearestYawThreshold
  let output ← dynamicSmoothingVelocity nearestSegIdx currentKinematics.linearX
    m.param.accelerationLimit m.param.velocityTimeConstant input
  return output.pushBack { output.back with
    relativeTime := output.back.relativeTime + 100.0
    vx           := 0.0 }

def steps : α :=
  ((m.param.predictionHorizon - 1 : ℕ) : α)

def getData (traj : MPCTrajectory α) (currentSteer predictedSteer : α) (currentPose : PoseMsg α) :
    Except Failure (Except String (MPCData α)) := do
  match ← calcNearestPoseInterp traj currentPose m.egoNearestDistThreshold
    m.egoNearestYawThreshold with
  | none         => return .error "error in calculating nearest pose"
  | some nearest =>
    let data : MPCData α := {
      nearestIdx     := nearest.index
      nearestTime    := nearest.time
      nearestPose    := nearest.pose
      steer          := currentSteer
      predictedSteer := predictedSteer
      lateralErr     := calcLateralError currentPose nearest.pose
      yawErr         :=
        normalizeRadian (getYaw currentPose.orientation - getYaw nearest.pose.orientation)
    }
    let distErr := UniverseUtils.calcDistance2d currentPose.position nearest.pose.position
    if m.admissiblePositionError < distErr then
      return .error "too large position error"
    if m.admissibleYawErrorRad < fabs data.yawErr then
      return .error "too large yaw error"
    let maxPredictionTime := m.param.minPredictionLength / m.steps
    let endTime := data.nearestTime + m.param.inputDelay + m.ctrlPeriod + maxPredictionTime
    if traj.relativeTime.getLastD 0.0 < endTime then
      return .error "path is too short for prediction."
    return .ok data

def signVx : α :=
  if m.isForwardShift then 1.0 else -1.0

-- The loop over the inputs that are on their way, from the state `x` at the time `mpcCurrTime`.
def delayed (traj : MPCTrajectory α) : α → σ → List α → Except Failure (Option σ)
  | _,           x, []      => return some x
  | mpcCurrTime, x, u :: us => do
    match ← caught (lerpAt traj.relativeTime traj.k mpcCurrTime) with
    | none   => return none
    | some k => match ← caught (lerpAt traj.relativeTime traj.vx mpcCurrTime) with
      | none   => return none
      | some v =>
        delayed traj (mpcCurrTime + m.ctrlPeriod) (m.step v (k * m.signVx) u x) us

def updateStateForDelayCompensation (traj : MPCTrajectory α) (startTime : α) (x0Orig : σ) :
    Except Failure (Option σ) :=
  m.delayed traj startTime x0Orig m.inputBuffer

-- The loop from the index `i` on, with `n` points left.
def targetTimeFrom (input : MPCTrajectory α) : ℕ → ℕ → α → α
  | 0,     _, _       => input.relativeTime.getLastD 0.0 - 100.0
  | n + 1, i, sumDist =>
    let segmentDist := MPCUtils.calcDistance2d input i (i - 1)
    let sumDist := sumDist + segmentDist
    if m.param.minPredictionLength < sumDist then
      let prevSumDist := sumDist - segmentDist
      let ratio := (m.param.minPredictionLength - prevSumDist) / segmentDist
      let relativeTimeAtI :=
        if i = input.relativeTime.length - 1 then input.relativeTime.getD i 0.0 - 100.0
        else input.relativeTime.getD i 0.0
      let previous := input.relativeTime.getD (i - 1) 0.0
      previous + (relativeTimeAtI - previous) * ratio
    else targetTimeFrom input n (i + 1) sumDist

def getPredictionDeltaTime (startTime : α) (input : MPCTrajectory α) (currentPose : PoseMsg α) :
    Except Failure α := do
  let autowareTraj := convertToAutowareTrajectory input
  let nearestIdx ← findFirstNearestIndexWithSoftConstraints autowareTraj currentPose
    m.egoNearestDistThreshold m.egoNearestYawThreshold
  let targetTime := m.targetTimeFrom input (input.relativeTime.length - (nearestIdx + 1))
    (nearestIdx + 1) 0.0
  let dt := (targetTime - startTime) / m.steps
  return stdMax dt m.param.predictionDt

def resampleMPCTrajectoryByTime (ts predictionDt : α) (input : MPCTrajectory α) :
    Except Failure (Except String (MPCTrajectory α)) := do
  let mpcTimeV := (List.range m.param.predictionHorizon).map fun i : ℕ => ts + (i : α) * predictionDt
  match ← linearInterpMPCTrajectory input.relativeTime input mpcTimeV with
  | none        => return .error "mpc resample error"
  | some output => return .ok output

-- `calculateMPC` up to the matrices.
def prepare [Spatial α] (currentSteer predictedSteer : α) (currentKinematics : Kinematics α) :
    Except Failure (Except String (Prepared α σ)) := do
  let referenceTrajectory ← m.applyVelocityDynamicsFilter m.referenceTrajectory currentKinematics
  match ← m.getData referenceTrajectory currentSteer predictedSteer currentKinematics.pose with
  | .error reason => return .error s!"getting MPC Data ({reason})."
  | .ok data      =>
    let x0 := m.getInitialState data
    match ← m.updateStateForDelayCompensation referenceTrajectory data.nearestTime x0 with
    | none           => return .error "delay compensation."
    | some x0Delayed =>
      let mpcStartTime := data.nearestTime + m.param.inputDelay
      let predictionDt ←
        m.getPredictionDeltaTime mpcStartTime referenceTrajectory currentKinematics.pose
      match ← m.resampleMPCTrajectoryByTime mpcStartTime predictionDt referenceTrajectory with
      | .error reason => return .error s!"trajectory resampling ({reason})."
      | .ok resampled => return .ok ⟨data, x0Delayed, predictionDt, resampled⟩

end MPC

-- A trajectory behind the filter. Its last two points differ in the velocity and the time only.
structure Extended (t : MPCTrajectory ℝ) (n : ℕ) : Prop where
  columns : t.Columns (n + 2)
  start   : t.relativeTime.headD 0 = 0
  sorted  : t.relativeTime.Pairwise (· < ·)
  pose    : (t.messageAt (n + 1)).pose = (t.messageAt n).pose
  extra   : t.relativeTime.getD (n + 1) 0 = t.relativeTime.getD n 0 + 100

section

variable {xs : List ℝ} {a d q : ℝ} {n i : ℕ} {t : MPCTrajectory ℝ}

theorem getD_concat_last (h : xs.length = n) : (xs ++ [a]).getD n d = a := by
  simp [← h]

theorem getLastD_eq_getD (h : xs.length = n + 1) : xs.getLastD d = xs.getD n d := by
  rw [List.getLastD_eq_getLast?, List.getLast?_eq_getElem?, h, List.getD_eq_getElem?_getD,
    Nat.add_sub_cancel]

theorem getD_concat (h : xs.length = n + 1) : (xs ++ [a]).getD n d = xs.getLastD d := by
  rw [List.getD_append _ _ _ _ (by omega), getLastD_eq_getD h]

theorem getD_mono (hs : xs.Pairwise (· < ·)) {i j : ℕ} (hij : i ≤ j) (hj : j < xs.length) :
    xs.getD i 0 ≤ xs.getD j 0 := by
  rw [List.getD_eq_getElem _ _ (hij.trans_lt hj), List.getD_eq_getElem _ _ hj]
  rcases hij.eq_or_lt with rfl | h
  · exact le_rfl
  · exact (List.pairwise_iff_getElem.mp hs i j _ _ h).le

theorem pushBack_pose (h : t.Columns (n + 1)) {time vx : ℝ} :
    ((t.pushBack { t.back with relativeTime := time, vx := vx }).messageAt (n + 1)).pose =
      ((t.pushBack { t.back with relativeTime := time, vx := vx }).messageAt n).pose := by
  simp only [MPCTrajectory.messageAt, MPCTrajectory.pushBack, MPCTrajectory.back,
    getD_concat_last h.x, getD_concat_last h.y, getD_concat_last h.z, getD_concat_last h.yaw,
    getD_concat h.x, getD_concat h.y, getD_concat h.z, getD_concat h.yaw]

theorem back_relativeTime (h : t.Columns (n + 1)) :
    t.back.relativeTime + 100.0 = t.relativeTime.getD n 0 + 100 := by
  have h0 : (0.0 : ℝ) = 0 := by norm_num
  have h100 : (100.0 : ℝ) = 100 := by norm_num
  rw [MPCTrajectory.back, h0, h100, getLastD_eq_getD h.relativeTime]

theorem pushBack_extra (h : t.Columns (n + 1)) {vx : ℝ} :
    (t.pushBack { t.back with relativeTime := t.back.relativeTime + 100.0, vx := vx }).relativeTime.getD
      (n + 1) 0 = (t.pushBack { t.back with
        relativeTime := t.back.relativeTime + 100.0, vx := vx }).relativeTime.getD n 0 + 100 := by
  rw [MPCTrajectory.pushBack, getD_concat_last h.relativeTime, getD_concat h.relativeTime,
    getLastD_eq_getD h.relativeTime]
  exact back_relativeTime h

theorem extended_pushBack (h : t.Columns (n + 1)) (h₀ : t.relativeTime.headD 0 = 0)
    (hs : t.relativeTime.Pairwise (· < ·)) :
    Extended (t.pushBack { t.back with relativeTime := t.back.relativeTime + 100.0, vx := 0.0 }) n := by
  have hl := h.relativeTime
  have hne : t.relativeTime ≠ [] := List.ne_nil_of_length_pos (by omega)
  constructor
  case columns => exact h.pushBack
  case start   =>
    obtain ⟨b, bs, hb⟩ := List.exists_cons_of_ne_nil hne
    rw [hb] at h₀
    simpa [MPCTrajectory.pushBack, hb] using h₀
  case sorted  =>
    refine List.pairwise_append.mpr ⟨hs, List.pairwise_singleton _ _, fun b hb c hc => ?_⟩
    obtain rfl := List.mem_singleton.mp hc
    obtain ⟨i, hi, rfl⟩ := List.getElem_of_mem hb
    have := getD_mono hs (show i ≤ n by omega) (by omega)
    rw [List.getD_eq_getElem _ _ hi] at this
    show t.relativeTime[i] < t.back.relativeTime + 100.0
    rw [back_relativeTime h]
    linarith
  case pose    => exact pushBack_pose h
  case extra   => exact pushBack_extra h

theorem Extended.mono (he : Extended t n) {i j : ℕ} (hij : i ≤ j) (hj : j < n + 2) :
    t.relativeTime.getD i 0 ≤ t.relativeTime.getD j 0 :=
  getD_mono he.sorted hij (by rw [he.columns.relativeTime]; exact hj)

theorem Extended.back (he : Extended t n) :
    t.relativeTime.getLastD 0 = t.relativeTime.getD n 0 + 100 := by
  rw [← he.extra, getLastD_eq_getD he.columns.relativeTime]

theorem Extended.nonneg (he : Extended t n) (hi : i < n + 2) : 0 ≤ t.relativeTime.getD i 0 := by
  have hh : t.relativeTime.getD 0 0 = t.relativeTime.headD 0 := by cases t.relativeTime <;> rfl
  have := he.mono (Nat.zero_le i) hi
  rwa [hh, he.start] at this

theorem Extended.points (he : Extended t n) :
    convertToAutowareTrajectory t =
      (List.range n).map t.messageAt ++ [t.messageAt n, t.messageAt (n + 1)] := by
  rw [convertToAutowareTrajectory, he.columns.size_eq, List.range_succ, List.range_succ]
  simp

theorem Extended.nearest (he : Extended t n) (pose : PoseMsg ℝ) (maxDist maxYaw : ℝ) :
    Returns (findFirstNearestIndexWithSoftConstraints (convertToAutowareTrajectory t) pose
      maxDist maxYaw) (· < n + 1) := by
  rw [he.points]
  exact (findFirstNearestIndex_lt_last he.pose).mono fun i hi => by simpa using hi

theorem Extended.segment (he : Extended t n) (pose : PoseMsg ℝ) (hi : i < n + 1) :
    (nearestSegment t pose i).1 < (nearestSegment t pose i).2 ∧
      ((nearestSegment t pose i).2 ≤ n ∨ nearestSegment t pose i = (n, n + 1)) := by
  have hs := he.columns.size_eq
  rw [nearestSegment, hs]
  dsimp only
  split_ifs with h₀ h₁
  · rcases n.eq_zero_or_pos with rfl | hn
    · exact ⟨by decide, .inr rfl⟩
    · exact ⟨by decide, .inl hn⟩
  · omega
  · exact ⟨by show i - 1 < i; omega, .inl (by show i ≤ n; omega)⟩
  · refine ⟨i.lt_succ_self, ?_⟩
    rcases Nat.lt_or_ge i n with hn | hn
    · exact .inl hn
    · obtain rfl : i = n := by omega
      exact .inr rfl

theorem Extended.pointAt_eq (he : Extended t n) : t.pointAt (n + 1) = t.pointAt n := by
  have h := congrArg PoseMsg.position he.pose
  obtain ⟨hx, hy, -⟩ := PointMsg.mk.inj h
  rw [MPCTrajectory.pointAt, MPCTrajectory.pointAt, hx, hy]

-- The trajectory and its points have each a function for the distance.
theorem calcDistance2d_eq (t : MPCTrajectory ℝ) (i j : ℕ) : MPCUtils.calcDistance2d t i j =
    UniverseUtils.calcDistance2d (t.pointAt i) (t.pointAt j) :=
  rfl

theorem calcDistance2d_self (p : PointMsg ℝ) : UniverseUtils.calcDistance2d p p = 0 := by
  simp [UniverseUtils.calcDistance2d, Libm.hypot]

theorem interpolateNearest_time (he : Extended t n) (pose : PoseMsg ℝ) {prev next : ℕ} {len : ℝ}
    (hp : prev < next) (hn : next ≤ n) :
    0 ≤ (interpolateNearest t pose i prev next len).time ∧
      (interpolateNearest t pose i prev next len).time ≤ t.relativeTime.getD n 0 := by
  have h0 : (0.0 : ℝ) = 0 := by norm_num
  have h1 : (1.0 : ℝ) = 1 := by norm_num
  set offset := (calcLongitudinalOffset (t.pointAt prev) (t.pointAt next) pose.position).getD 0.0
  have hr₀ : 0 ≤ stdClamp (offset / len) 0 1 := by
    rw [stdClamp_real zero_le_one]
    exact le_max_left _ _
  have hr₁ : stdClamp (offset / len) 0 1 ≤ 1 := by
    rw [stdClamp_real zero_le_one]
    exact max_le zero_le_one (min_le_right _ _)
  have hv : (interpolateNearest t pose i prev next len).time =
      (1 - stdClamp (offset / len) 0 1) * t.relativeTime.getD prev 0 +
        stdClamp (offset / len) 0 1 * t.relativeTime.getD next 0 := by
    simp only [interpolateNearest, h0, h1, offset]
  rw [hv]
  generalize stdClamp (offset / len) 0 1 = r at *
  have h₁ := he.nonneg (show prev < n + 2 by omega)
  have h₂ := he.mono hp.le (show next < n + 2 by omega)
  have h₃ := he.mono hn (show n < n + 2 by omega)
  constructor <;> nlinarith

theorem Extended.nearestPose (he : Extended t n) (pose : PoseMsg ℝ) (maxDist maxYaw : ℝ) :
    Returns (calcNearestPoseInterp t pose maxDist maxYaw) fun r =>
      ∃ nearest, r = some nearest ∧ 0 ≤ nearest.time ∧ nearest.time ≤ t.relativeTime.getD n 0 := by
  have hs := he.columns.size_eq
  have h0 : (0.0 : ℝ) = 0 := by norm_num
  have hat (j : ℕ) (hj : j < n + 1) :
      0 ≤ (t.nearestAt j).time ∧ (t.nearestAt j).time ≤ t.relativeTime.getD n 0 := by
    have h₁ := he.nonneg (show j < n + 2 by omega)
    have h₂ := he.mono (show j ≤ n by omega) (show n < n + 2 by omega)
    simp only [MPCTrajectory.nearestAt, h0]
    exact ⟨h₁, h₂⟩
  have hne : (convertToAutowareTrajectory t).isEmpty = false := by
    rw [he.points]
    simp
  refine .ite (fun h => by omega) fun _ => .ite (fun h => by simp [hne] at h) fun _ => ?_
  refine (he.nearest pose maxDist maxYaw).bind fun j hj => .ite (fun h => by omega) fun _ => ?_
  obtain ⟨hlt, hseg⟩ := he.segment pose hj
  generalize nearestSegment t pose j = segment at *
  obtain ⟨prev, next⟩ := segment
  refine .ite (fun _ => .pure ⟨_, rfl, hat j hj⟩) fun hlen => ?_
  obtain hnext | hlast := hseg
  case inl => exact .pure ⟨_, rfl, interpolateNearest_time he pose hlt hnext⟩
  case inr =>
    cases hlast
    refine absurd ?_ hlen
    rw [he.pointAt_eq, calcDistance2d_self]
    norm_num

end

-- The interpolations within the times of the trajectory.
section

variable {keys qs : List ℝ} {q dt : ℝ} {n i N : ℕ} {t : MPCTrajectory ℝ}

theorem lerpFrom_self (hs : keys.Pairwise (· < ·)) (hq : ∀ q ∈ qs, q ≤ keys.getLastD 0)
    (hi : i + 1 < keys.length) : Interpolation.lerpFrom keys keys i qs = .ok qs := by
  induction qs generalizing i with
  | nil => rfl
  | cons q qs ih =>
    obtain ⟨j, hj, hlt⟩ := Interpolation.advance_ok (hq q List.mem_cons_self) hi
    have hstep : keys[j] < keys[j + 1] :=
      List.pairwise_iff_getElem.mp hs j (j + 1) (Nat.lt_of_succ_lt hlt) hlt j.lt_succ_self
    have hne : keys[j + 1] - keys[j] ≠ 0 := (sub_pos.mpr hstep).ne'
    rw [Interpolation.lerpFrom]
    simp only [hj, ih (fun q h => hq q (List.mem_cons_of_mem _ h)) hlt, ok_bind,
      vectorAt_eq hlt, vectorAt_eq (Nat.lt_of_succ_lt hlt)]
    rw [Interpolation.lerpRatio, mul_div_cancel₀ _ hne, add_sub_cancel]
    rfl

theorem Extended.two_le (he : Extended t n) : 2 ≤ t.relativeTime.length := by
  rw [he.columns.relativeTime]
  omega

theorem Extended.validateKeys (he : Extended t n) (hne : qs ≠ []) (hs : qs.Pairwise (· ≤ ·))
    (h₀ : 0 ≤ qs.headD 0) (hb : qs.getLastD 0 ≤ t.relativeTime.getLastD 0) :
    Interpolation.validateKeys t.relativeTime qs = .ok qs :=
  Interpolation.validateKeys_eq he.two_le he.sorted hne hs (by rw [he.start]; exact h₀) hb

theorem Extended.lerpAt (he : Extended t n) {values : List ℝ} (hv : values.length = n + 2)
    (h₀ : 0 ≤ q) (hb : q ≤ t.relativeTime.getLastD 0) :
    ∃ v, caught (lerpAt t.relativeTime values q) = .ok (some v) := by
  have hk := he.validateKeys (List.cons_ne_nil q []) (List.pairwise_singleton _ _) h₀ hb
  obtain ⟨out, ho, -⟩ := Interpolation.lerp_ok hk (by simpa using hb) he.two_le
    (hv.trans he.columns.relativeTime.symm)
  refine ⟨out.headD 0.0, ?_⟩
  rw [MPCUtils.lerpAt, ho]
  rfl

theorem Extended.resample (he : Extended t n) (hN : 0 < N) (hdt : 0 ≤ dt) (h₀ : 0 ≤ q)
    (hb : q + (N - 1 : ℕ) * dt ≤ t.relativeTime.getLastD 0) :
    ∃ out : MPCTrajectory ℝ, out.Columns N ∧ out.relativeTime = progression q dt N ∧
      linearInterpMPCTrajectory t.relativeTime t (progression q dt N) = .ok (some out) := by
  have hc := he.columns
  have hne : progression q dt N ≠ [] := List.ne_nil_of_length_pos (by simpa using hN)
  have hs : (progression q dt N).Pairwise (· ≤ ·) := by
    rw [progression, List.pairwise_map]
    exact List.pairwise_lt_range.imp fun h => by gcongr
  have hk := he.validateKeys hne hs (by rw [headD_progression hN]; exact h₀)
    (by rw [getLastD_progression hN]; exact hb)
  have hle : ∀ s ∈ progression q dt N, s ≤ t.relativeTime.getLastD 0 := by
    intro s hm
    obtain ⟨i, hi, rfl⟩ := mem_progression.mp hm
    have : (i : ℝ) * dt ≤ (N - 1 : ℕ) * dt := by gcongr; omega
    linarith
  have hl {values : List ℝ} (hv : values.length = n + 2) :
      ∃ out, Interpolation.lerp t.relativeTime values (progression q dt N) = .ok out ∧
        out.length = N := by
    obtain ⟨out, ho, hlen⟩ := Interpolation.lerp_ok hk hle he.two_le (hv.trans hc.relativeTime.symm)
    exact ⟨out, ho, hlen.trans length_progression⟩
  have htime : Interpolation.lerp t.relativeTime t.relativeTime (progression q dt N) =
      .ok (progression q dt N) := by
    rw [Interpolation.lerp]
    simp only [hk, Interpolation.validateKeysAndValues_eq he.two_le rfl, ok_bind]
    exact lerpFrom_self he.sorted hle he.two_le
  obtain ⟨x, hx, lx⟩ := hl hc.x
  obtain ⟨y, hy, ly⟩ := hl hc.y
  obtain ⟨z, hz, lz⟩ := hl hc.z
  obtain ⟨yaw, hyaw, lyaw⟩ := hl hc.yaw
  obtain ⟨vx, hvx, lvx⟩ := hl hc.vx
  obtain ⟨k, hk', lk⟩ := hl hc.k
  obtain ⟨smoothK, hsk, lsk⟩ := hl hc.smoothK
  have hout : (⟨x, y, z, yaw, vx, k, smoothK, progression q dt N⟩ : MPCTrajectory ℝ).Columns N :=
    ⟨lx, ly, lz, lyaw, lvx, lk, lsk, length_progression⟩
  refine ⟨_, hout, rfl, ?_⟩
  rw [linearInterpMPCTrajectory, if_neg (by rw [hc.size_eq]; omega)]
  simp only [hx, hy, hz, hyaw, hvx, hk', hsk, htime, ok_bind]
  show Except.ok (Option.filter _ (some _)) = _
  rw [Option.filter_some, if_pos (by simpa [hout.size_eq] using hN.ne')]

end

namespace MPC

variable {σ : Type} {m : MPC ℝ σ} {t : MPCTrajectory ℝ} {kinematics : Kinematics ℝ} {n i r : ℕ}
  {steer predicted time sum : ℝ}

structure Filtered (m : MPC ℝ σ) (kinematics : Kinematics ℝ) (t : MPCTrajectory ℝ) (start : ℕ)
    (t' : MPCTrajectory ℝ) : Prop where
  smoothed : Smoothed m.param.accelerationLimit kinematics.linearX start t t'.vx.dropLast
  within   : ∀ lo hi, lo ≤ kinematics.linearX → kinematics.linearX ≤ hi →
    (∀ v ∈ t.vx, lo ≤ v ∧ v ≤ hi) → ∀ v ∈ t'.vx.dropLast, lo ≤ v ∧ v ≤ hi
  stop     : t'.vx.getLastD 0 = 0
  path     : t'.x.dropLast = t.x ∧ t'.y.dropLast = t.y ∧ t'.z.dropLast = t.z ∧
    t'.yaw.dropLast = t.yaw ∧ t'.k.dropLast = t.k ∧ t'.smoothK.dropLast = t.smoothK
  times    : t'.relativeTime.Pairwise (· < ·)

-- The segment of a reference that the filter starts at.
def NearestSegment (m : MPC ℝ σ) (kinematics : Kinematics ℝ) (t : MPCTrajectory ℝ) (start : ℕ) :
    Prop :=
  findFirstNearestSegmentIndexWithSoftConstraints (convertToAutowareTrajectory t) kinematics.pose
    m.egoNearestDistThreshold m.egoNearestYawThreshold = .ok start

theorem filter_returns (h : t.Columns (n + 1)) :
    Returns (m.applyVelocityDynamicsFilter t kinematics) fun t' => Extended t' n ∧
      ∃ start ≤ n - 1, m.NearestSegment kinematics t start ∧
        (0 ≤ m.param.accelerationLimit → 0 ≤ m.param.velocityTimeConstant →
          m.Filtered kinematics t start t') := by
  have hs := h.size_eq
  have hl : (convertToAutowareTrajectory t).length = n + 1 := by
    simp [convertToAutowareTrajectory, hs]
  have hne : convertToAutowareTrajectory t ≠ [] := List.ne_nil_of_length_pos (by omega)
  refine .ite (fun he => absurd (List.isEmpty_iff.mp he) hne) fun _ => ?_
  refine (findFirstNearestSegmentIndex_returns hne).with_eq.bind
    fun start hstart => ?_
  rw [hl] at hstart
  obtain ⟨hnearest, hstart⟩ := hstart
  refine (dynamicSmoothingVelocity_returns h n.succ_pos hstart).bind fun t' ht' => .pure ?_
  obtain ⟨vs, hv, rfl, hsm⟩ := ht'
  have hc : ({ t with vx := vs } : MPCTrajectory ℝ).Columns (n + 1) := { h with vx := hv }
  obtain ⟨ts, hts, -⟩ := calcMPCTrajectoryTime_eq { t with vx := vs }
  have he := extended_pushBack (hc.calcMPCTrajectoryTime n.succ_pos) (by rw [hts]; rfl)
    (calcMPCTrajectoryTime_sorted _)
  refine ⟨he, start, hstart, hnearest, fun ha ht => ?_⟩
  have hsm := hsm ha ht
  constructor
  case smoothed => simpa [MPCTrajectory.pushBack, calcMPCTrajectoryTime] using hsm
  case within   =>
    intro lo hi h₀ h₁ hr v hmem
    have hmem : v ∈ vs := by simpa [MPCTrajectory.pushBack, calcMPCTrajectoryTime] using hmem
    obtain ⟨i, hi', rfl⟩ := List.getElem_of_mem hmem
    rw [← List.getD_eq_getElem _ 0 hi']
    exact hsm.within ⟨h₀, h₁⟩ hr hi'
  case stop     =>
    have h0 : (0.0 : ℝ) = 0 := by norm_num
    simp [MPCTrajectory.pushBack, h0]
  case path     => simp [MPCTrajectory.pushBack, calcMPCTrajectoryTime]
  case times    => exact he.sorted

theorem delayed_returns (he : Extended t n) (hp : 0 < m.ctrlPeriod) (us : List ℝ) (x : σ)
    (h₀ : 0 ≤ time) (hb : time + us.length * m.ctrlPeriod ≤ t.relativeTime.getLastD 0) :
    Returns (m.delayed t time x us) fun r => ∃ x', r = some x' := by
  induction us generalizing time x with
  | nil => exact .pure ⟨x, rfl⟩
  | cons u us ih =>
    push_cast [List.length_cons] at hb
    have hnn : 0 ≤ (us.length : ℝ) * m.ctrlPeriod := by positivity
    have hq : time ≤ t.relativeTime.getLastD 0 := by linarith
    obtain ⟨k, hk⟩ := he.lerpAt he.columns.k h₀ hq
    obtain ⟨v, hv⟩ := he.lerpAt he.columns.vx h₀ hq
    rw [delayed, hk]
    show Returns (caught _ >>= _) _
    rw [hv]
    exact ih _ (by linarith) (by linarith)

theorem targetTimeFrom_le (he : Extended t n) (hi : 1 ≤ i) (hr : i + r = n + 2)
    (hs : sum ≤ m.param.minPredictionLength) :
    m.targetTimeFrom t r i sum ≤ t.relativeTime.getD n 0 := by
  have h0 : (0.0 : ℝ) = 0 := by norm_num
  have h100 : (100.0 : ℝ) = 100 := by norm_num
  induction r generalizing i sum with
  | zero =>
    rw [targetTimeFrom, h0, he.back, h100]
    linarith
  | succ r ih =>
    rw [targetTimeFrom]
    dsimp only
    have hd := calcDistance2d_nonneg t i (i - 1)
    split_ifs with hlen hlast
    case pos =>
      exfalso
      rw [he.columns.relativeTime] at hlast
      obtain rfl : i = n + 1 := by omega
      rw [calcDistance2d_eq, Nat.add_sub_cancel, he.pointAt_eq, calcDistance2d_self] at hlen
      linarith
    case neg =>
      rw [he.columns.relativeTime] at hlast
      have hpos : 0 < MPCUtils.calcDistance2d t i (i - 1) := by linarith
      have h₁ := he.mono (Nat.sub_le i 1) (show i < n + 2 by omega)
      have h₂ := he.mono (show i ≤ n by omega) (show n < n + 2 by omega)
      have hratio : (m.param.minPredictionLength - (sum + MPCUtils.calcDistance2d t i (i - 1) -
          MPCUtils.calcDistance2d t i (i - 1))) / MPCUtils.calcDistance2d t i (i - 1) ≤ 1 := by
        rw [div_le_one hpos]
        linarith
      rw [h0]
      nlinarith
    case neg => exact ih (by omega) (by omega) (by linarith)

structure Sane (m : MPC ℝ σ) : Prop where
  horizon : 2 ≤ m.param.predictionHorizon
  dt      : 0 < m.param.predictionDt
  length  : 0 ≤ m.param.minPredictionLength
  period  : 0 < m.ctrlPeriod
  -- The constructor rounds the delay to the inputs that it keeps.
  delay   : m.param.inputDelay = m.inputBuffer.length * m.ctrlPeriod
  -- The time after the end is longer than the horizon and the checked time.
  fits    : m.param.inputDelay + m.steps * m.param.predictionDt ≤ 100
  checked : m.param.inputDelay + m.ctrlPeriod + m.param.minPredictionLength / m.steps ≤ 100

theorem Sane.of_same {m' : MPC ℝ σ} (hm : m.Sane) (hp : m'.param = m.param)
    (hc : m'.ctrlPeriod = m.ctrlPeriod) (hb : m'.inputBuffer.length = m.inputBuffer.length) :
    m'.Sane := by
  have hs : m'.steps = m.steps := by rw [steps, steps, hp]
  obtain ⟨h₁, h₂, h₃, h₄, h₅, h₆, h₇⟩ := hm
  constructor
  case horizon => rwa [hp]
  case dt      => rwa [hp]
  case length  => rwa [hp]
  case period  => rwa [hc]
  case delay   => rwa [hp, hb, hc]
  case fits    => rwa [hp, hs]
  case checked => rwa [hp, hc, hs]

theorem Sane.steps_pos (hm : m.Sane) : 0 < m.steps := by
  have := hm.horizon
  rw [steps, natCast_real]
  exact_mod_cast (by omega : 0 < m.param.predictionHorizon - 1)

theorem getPredictionDeltaTime_returns (hm : m.Sane) (he : Extended t n) (pose : PoseMsg ℝ)
    (hb : time + m.steps * m.param.predictionDt ≤ t.relativeTime.getLastD 0) :
    Returns (m.getPredictionDeltaTime time t pose) fun dt =>
      m.param.predictionDt ≤ dt ∧ time + m.steps * dt ≤ t.relativeTime.getLastD 0 := by
  have hpos := hm.steps_pos
  have h0 : (0.0 : ℝ) = 0 := by norm_num
  refine (he.nearest pose _ _).bind fun j hj => .pure ?_
  rw [stdMax_real, h0, he.columns.relativeTime]
  refine ⟨le_max_right _ _, ?_⟩
  have ht : m.targetTimeFrom t (n + 2 - (j + 1)) (j + 1) 0 ≤ t.relativeTime.getD n 0 :=
    targetTimeFrom_le he (by omega) (by omega) hm.length
  generalize m.targetTimeFrom t (n + 2 - (j + 1)) (j + 1) 0 = target at *
  rw [mul_max_of_nonneg _ _ hpos.le, mul_div_cancel₀ _ hpos.ne', ← max_add_add_left]
  have := he.back
  exact max_le (by linarith) hb

structure Fits (m : MPC ℝ σ) (kinematics : Kinematics ℝ) (p : Prepared ℝ σ) : Prop where
  position : UniverseUtils.calcDistance2d kinematics.pose.position p.data.nearestPose.position ≤
    m.admissiblePositionError
  yaw      : |p.data.yawErr| ≤ m.admissibleYawErrorRad
  start    : 0 ≤ p.data.nearestTime
  dt       : m.param.predictionDt ≤ p.predictionDt
  columns  : p.resampled.Columns m.param.predictionHorizon
  times    : p.resampled.relativeTime = progression (p.data.nearestTime + m.param.inputDelay)
    p.predictionDt m.param.predictionHorizon

-- The reasons why a calculation does not go on, and what it goes on with.
inductive Answers (m : MPC ℝ σ) (kinematics : Kinematics ℝ) : Except String (Prepared ℝ σ) → Prop
  | empty (h : m.referenceTrajectory.size = 0) :
    Answers m kinematics (.error "getting MPC Data (error in calculating nearest pose).")
  | far (h : 0 < m.referenceTrajectory.size) (nearest : PoseMsg ℝ)
    (hd : m.admissiblePositionError <
      UniverseUtils.calcDistance2d kinematics.pose.position nearest.position) :
    Answers m kinematics (.error "getting MPC Data (too large position error).")
  | turned (h : 0 < m.referenceTrajectory.size) (nearest : PoseMsg ℝ)
    (hd : m.admissibleYawErrorRad <
      |normalizeRadian (getYaw kinematics.pose.orientation - getYaw nearest.orientation)|) :
    Answers m kinematics (.error "getting MPC Data (too large yaw error).")
  | prepared (p : Prepared ℝ σ) (h : m.Fits kinematics p) : Answers m kinematics (.ok p)

inductive Gathers (m : MPC ℝ σ) (t : MPCTrajectory ℝ) (n : ℕ) (pose : PoseMsg ℝ) :
    Except String (MPCData ℝ) → Prop
  | far (nearest : PoseMsg ℝ)
    (hd : m.admissiblePositionError < UniverseUtils.calcDistance2d pose.position nearest.position) :
    Gathers m t n pose (.error "too large position error")
  | turned (nearest : PoseMsg ℝ)
    (hd : m.admissibleYawErrorRad <
      |normalizeRadian (getYaw pose.orientation - getYaw nearest.orientation)|) :
    Gathers m t n pose (.error "too large yaw error")
  | found (data : MPCData ℝ) (h₀ : 0 ≤ data.nearestTime)
    (hle : data.nearestTime ≤ t.relativeTime.getD n 0)
    (hd : UniverseUtils.calcDistance2d pose.position data.nearestPose.position ≤
      m.admissiblePositionError)
    (hy : |data.yawErr| ≤ m.admissibleYawErrorRad) :
    Gathers m t n pose (.ok data)

theorem getData_returns (hm : m.Sane) (he : Extended t n) (pose : PoseMsg ℝ) :
    Returns (m.getData t steer predicted pose) (m.Gathers t n pose) := by
  refine (he.nearestPose pose m.egoNearestDistThreshold m.egoNearestYawThreshold).bind fun r hr => ?_
  obtain ⟨nearest, rfl, h₀, hle⟩ := hr
  refine .ite (fun hd => .pure (.far _ hd)) fun hd => ?_
  refine .ite (fun hy => .pure (.turned _ hy)) fun hy => .ite (fun hend => ?_) fun _ => ?_
  case refine_1 =>
    exfalso
    have h0 : (0.0 : ℝ) = 0 := by norm_num
    have hc := hm.checked
    rw [h0, he.back] at hend
    linarith
  case refine_2 => exact .pure (.found _ h₀ hle (not_lt.mp hd) (not_lt.mp hy))

theorem prepared_returns (hm : m.Sane) (he : Extended t n) (pose : PoseMsg ℝ) (x : σ) (h₀ : 0 ≤ time)
    (hn : time ≤ t.relativeTime.getD n 0) :
    (∃ x', m.updateStateForDelayCompensation t time x = .ok (some x')) ∧
    ∃ dt, m.getPredictionDeltaTime (time + m.param.inputDelay) t pose = .ok dt ∧
      m.param.predictionDt ≤ dt ∧
      ∃ out : MPCTrajectory ℝ, out.Columns m.param.predictionHorizon ∧
        out.relativeTime = progression (time + m.param.inputDelay) dt m.param.predictionHorizon ∧
        m.resampleMPCTrajectoryByTime (time + m.param.inputDelay) dt t = .ok (.ok out) := by
  have hback := he.back
  have hpos := hm.steps_pos
  have hd := hm.delay
  have hdt := hm.dt
  have hnn : 0 ≤ m.param.inputDelay := by
    have := hm.period
    rw [hd]
    positivity
  have hsteps : 0 ≤ m.steps * m.param.predictionDt := by positivity
  have hfits := hm.fits
  constructor
  case left =>
    obtain ⟨r, hr, x', rfl⟩ := delayed_returns he hm.period m.inputBuffer x h₀
      (by rw [← hd]; linarith)
    exact ⟨x', hr⟩
  case right =>
    obtain ⟨dt, hr, hle, hlast⟩ := getPredictionDeltaTime_returns hm he pose
      (show time + m.param.inputDelay + m.steps * m.param.predictionDt ≤ _ by linarith)
    obtain ⟨out, hc, ht, ho⟩ := he.resample (show 0 < m.param.predictionHorizon by
      have := hm.horizon
      omega) (hdt.le.trans hle) (add_nonneg h₀ hnn) hlast
    refine ⟨dt, hr, hle, out, hc, ht, ?_⟩
    rw [resampleMPCTrajectoryByTime]
    show linearInterpMPCTrajectory _ _ (progression _ _ _) >>= _ = _
    rw [ho]
    rfl

theorem prepare_returns (hm : m.Sane) (steer predicted : ℝ) (kinematics : Kinematics ℝ) :
    Returns (m.prepare steer predicted kinematics) (m.Answers kinematics) := by
  rcases m.referenceTrajectory.size.eq_zero_or_pos with hz | hpos
  case inl =>
    have hf : m.applyVelocityDynamicsFilter m.referenceTrajectory kinematics =
        .ok m.referenceTrajectory := by
      simp [applyVelocityDynamicsFilter, convertToAutowareTrajectory, hz]
      rfl
    have hg : m.getData m.referenceTrajectory steer predicted kinematics.pose =
        .ok (.error "error in calculating nearest pose") := by
      rw [getData, calcNearestPoseInterp, if_pos hz]
      rfl
    refine Returns.bind (P := (· = m.referenceTrajectory)) ⟨_, hf, rfl⟩ ?_
    rintro _ rfl
    refine Returns.bind (P := (· = _)) ⟨_, hg, rfl⟩ ?_
    rintro _ rfl
    exact .pure (.empty hz)
  case inr =>
    obtain ⟨n, hn⟩ := Nat.exists_eq_succ_of_ne_zero hpos.ne'
    have hc := MPCTrajectory.columns hpos
    rw [hn] at hc
    refine (filter_returns hc).bind fun t ht => ?_
    have he := ht.1
    refine (getData_returns hm he kinematics.pose).bind fun r hr => ?_
    cases hr with
    | far nearest hd => exact .pure (.far hpos nearest hd)
    | turned nearest hd => exact .pure (.turned hpos nearest hd)
    | found data h₀ hle hd hy =>
      obtain ⟨⟨x', hx⟩, dt, hdt, hle', out, hout, htimes, hr⟩ :=
        prepared_returns hm he kinematics.pose (m.getInitialState data) h₀ hle
      refine Returns.bind (P := (· = some x')) ⟨_, hx, rfl⟩ ?_
      rintro _ rfl
      refine Returns.bind (P := (· = dt)) ⟨_, hdt, rfl⟩ ?_
      rintro _ rfl
      refine Returns.bind (P := (· = .ok out)) ⟨_, hr, rfl⟩ ?_
      rintro _ rfl
      exact .pure (.prepared _ ⟨hd, hy, h₀, hle', hout, htimes⟩)

noncomputable def bicycle : Mpc.KinematicsBicycleModel ℝ where
  wheelbase := 2.79
  steerLim  := 0.7
  steerTau  := 0.27

section

local instance atLeastTwo_two : Nat.AtLeastTwo 2 := ⟨by decide⟩
local instance atLeastTwo_three : Nat.AtLeastTwo 3 := ⟨by decide⟩
local instance atLeastTwo_five : Nat.AtLeastTwo 5 := ⟨by decide⟩

-- A controller with the defaults of the parameters, and two inputs that are on their way.
noncomputable def crawling : MPC ℝ (ℕ → ℝ) where
  param                    := {
    predictionHorizon    := 50
    predictionDt         := 0.1
    minPredictionLength  := 5
    inputDelay           := 0.3
    accelerationLimit    := 2
    velocityTimeConstant := 0.3
  }
  ctrlPeriod               := 0.15
  egoNearestDistThreshold  := 3
  egoNearestYawThreshold   := 1
  admissiblePositionError  := 5
  admissibleYawErrorRad    := 1.5
  isForwardShift           := true
  inputBuffer              := [0, 0.1]
  referenceTrajectory      := metre
  getInitialState data     := Mpc.vector ![data.lateralErr, data.yawErr, data.steer]
  step v k u               := (bicycle.calculateDiscreteMatrix v k 0.15).step 3 u

end

noncomputable def standing : Kinematics ℝ :=
  ⟨⟨⟨0, 0, 0⟩, ⟨0, 0, 0, 1⟩⟩, 0⟩

theorem crawling_sane : crawling.Sane := by
  constructor <;> norm_num [crawling, steps]

-- The filter starts at the velocity of the vehicle, it never overshoots, and it accelerates and
-- brakes within the limit.
theorem applyVelocityDynamicsFilter_smooths (h : t.Columns (n + 1))
    (ha : 0 ≤ m.param.accelerationLimit) (ht : 0 ≤ m.param.velocityTimeConstant) :
    Returns (m.applyVelocityDynamicsFilter t kinematics) fun t' =>
      ∃ start ≤ n - 1, m.NearestSegment kinematics t start ∧ m.Filtered kinematics t start t' := by
  refine (filter_returns h).mono fun t' ht' => ?_
  obtain ⟨-, start, hs, hn, hf⟩ := ht'
  exact ⟨start, hs, hn, hf ha ht⟩

theorem applyVelocityDynamicsFilter_smooths_crawling :
    Returns (crawling.applyVelocityDynamicsFilter metre standing) fun t' =>
      ∃ start ≤ 0, crawling.NearestSegment standing metre start ∧
        crawling.Filtered standing metre start t' :=
  @applyVelocityDynamicsFilter_smooths _ crawling metre standing 1
    ⟨rfl, rfl, rfl, rfl, rfl, rfl, rfl, rfl⟩ (show (0 : ℝ) ≤ 2 by norm_num)
    (show (0 : ℝ) ≤ 0.3 by norm_num)

end MPC

end SafetyIsland.Lateral
