import SafetyIsland.MotionUtils.Trajectory

namespace SafetyIsland.MPCUtils

open Fallible UniverseUtils MotionUtils CppMath Libm OnReal

class Spatial (α : Type) where
  hypot3 : α → α → α → α

noncomputable instance spatialReal : Spatial ℝ where
  hypot3 x y z := √(x ^ 2 + y ^ 2 + z ^ 2)

structure MPCTrajectoryPoint (α : Type) where
  x            : α
  y            : α
  z            : α
  yaw          : α
  vx           : α
  k            : α
  smoothK      : α
  relativeTime : α

section

variable {α : Type}

def MPCTrajectory.pushBack (t : MPCTrajectory α) (p : MPCTrajectoryPoint α) : MPCTrajectory α where
  x            := t.x ++ [p.x]
  y            := t.y ++ [p.y]
  z            := t.z ++ [p.z]
  yaw          := t.yaw ++ [p.yaw]
  vx           := t.vx ++ [p.vx]
  k            := t.k ++ [p.k]
  smoothK      := t.smoothK ++ [p.smoothK]
  relativeTime := t.relativeTime ++ [p.relativeTime]

variable [CppMath α]

def MPCTrajectory.back (t : MPCTrajectory α) : MPCTrajectoryPoint α where
  x            := t.x.getLastD 0.0
  y            := t.y.getLastD 0.0
  z            := t.z.getLastD 0.0
  yaw          := t.yaw.getLastD 0.0
  vx           := t.vx.getLastD 0.0
  k            := t.k.getLastD 0.0
  smoothK      := t.smoothK.getLastD 0.0
  relativeTime := t.relativeTime.getLastD 0.0

-- The point at an index, as a message. The fields that no caller reads stay zero.
def MPCTrajectory.messageAt (t : MPCTrajectory α) (i : ℕ) : TrajectoryPoint α where
  pose                    :=
    ⟨⟨t.x.getD i 0.0, t.y.getD i 0.0, t.z.getD i 0.0⟩, createQuaternionFromYaw (t.yaw.getD i 0.0)⟩
  longitudinalVelocityMps := SinglePrecision.toSingle (t.vx.getD i 0.0)
  lateralVelocityMps      := 0.0
  accelerationMps2        := 0.0
  headingRateRps          := 0.0

def convertToAutowareTrajectory (input : MPCTrajectory α) : List (TrajectoryPoint α) :=
  (List.range input.size).map input.messageAt

def calcDistance3d [Spatial α] (trajectory : MPCTrajectory α) (idx1 idx2 : ℕ) : α :=
  let dx := trajectory.x.getD idx1 0.0 - trajectory.x.getD idx2 0.0
  let dy := trajectory.y.getD idx1 0.0 - trajectory.y.getD idx2 0.0
  let dz := trajectory.z.getD idx1 0.0 - trajectory.z.getD idx2 0.0
  Spatial.hypot3 dx dy dz

def travelTime [Spatial α] (traj : MPCTrajectory α) (i : ℕ) : α :=
  let dist := calcDistance3d traj i (i + 1)
  let v := stdMax (fabs (traj.vx.getD i 0.0)) 0.1
  stdMax (dist / v) 1.0e-4

def calcMPCTrajectoryTime [Spatial α] (traj : MPCTrajectory α) : MPCTrajectory α :=
  let push (s : α × List α) (i : ℕ) : α × List α :=
    let t := s.1 + travelTime traj i
    (t, s.2 ++ [t])
  { traj with relativeTime := ((List.range (traj.x.length - 1)).foldl push (0.0, [0.0])).2 }

-- A pass over the index `i`, with the velocity at the point before it.
def smoothVelocity (accLim tau : α) (traj : MPCTrajectory α) (s : α × List α) (i : ℕ) :
    α × List α :=
  let currV := s.1
  let ds := calcDistance2d traj i (i - 1)
  let dt := ds / stdMax (fabs currV) epsilon
  let a := tau / stdMax (tau + dt) epsilon
  let updatedV := a * currV + (1.0 - a) * s.2.getD i 0.0
  let dv := stdMax (-accLim * dt) (stdMin (accLim * dt) (updatedV - currV))
  (currV + dv, s.2.set i (currV + dv))

def dynamicSmoothingVelocity [Spatial α] (startSegIdx : ℕ) (startVel accLim tau : α)
    (traj : MPCTrajectory α) : Except Failure (MPCTrajectory α) := do
  let vx ← setAt traj.vx startSegIdx startVel
  let vx ← if 1 < vx.length then setAt vx (startSegIdx + 1) startVel else pure vx
  let indices := List.range' (startSegIdx + 2) (traj.size - (startSegIdx + 2))
  let smoothed := indices.foldl (smoothVelocity accLim tau traj) (startVel, vx)
  return calcMPCTrajectoryTime { traj with vx := smoothed.2 }

-- The anonymous function of the file. Two zeros have no quotient.
def calcLongitudinalOffset (pFront pBack pTarget : PointMsg α) : Option α :=
  let segX := pBack.x - pFront.x
  let segY := pBack.y - pFront.y
  let dot := segX * (pTarget.x - pFront.x) + segY * (pTarget.y - pFront.y) + 0.0 * 0.0
  let norm := sqrt (segX * segX + segY * segY + 0.0 * 0.0)
  if dot ≤ 0.0 ∧ 0.0 ≤ dot ∧ norm ≤ 0.0 then none else some (dot / norm)

structure Nearest (α : Type) where
  pose  : PoseMsg α
  index : ℕ
  time  : α

def MPCTrajectory.pointAt (t : MPCTrajectory α) (i : ℕ) : PointMsg α :=
  ⟨t.x.getD i 0.0, t.y.getD i 0.0, 0.0⟩

def MPCTrajectory.nearestAt (t : MPCTrajectory α) (i : ℕ) : Nearest α where
  pose  := ⟨t.pointAt i, createQuaternionFromYaw (t.yaw.getD i 0.0)⟩
  index := i
  time  := t.relativeTime.getD i 0.0

def nearestSegment (traj : MPCTrajectory α) (selfPose : PoseMsg α) (nearestIndex : ℕ) : ℕ × ℕ :=
  if nearestIndex = 0 then (0, 1)
  else if nearestIndex = traj.size - 1 then (traj.size - 2, traj.size - 1)
  else
    let signedLength := calcLongitudinalOffset (traj.pointAt nearestIndex)
      (traj.pointAt (nearestIndex + 1)) selfPose.position
    if signedLength.any (· ≤ 0.0) then (nearestIndex - 1, nearestIndex)
    else (nearestIndex, nearestIndex + 1)

def interpolateNearest (traj : MPCTrajectory α) (selfPose : PoseMsg α) (nearestIndex prev next : ℕ)
    (trajSegLength : α) : Nearest α :=
  let offset := (calcLongitudinalOffset (traj.pointAt prev) (traj.pointAt next)
    selfPose.position).getD 0.0
  let ratio := stdClamp (offset / trajSegLength) 0.0 1.0
  let between (xs : List α) : α := (1.0 - ratio) * xs.getD prev 0.0 + ratio * xs.getD next 0.0
  let tmpYawErr := normalizeRadian (traj.yaw.getD prev 0.0 - traj.yaw.getD next 0.0)
  let nearestYaw := normalizeRadian (traj.yaw.getD next 0.0 + (1.0 - ratio) * tmpYawErr)
  { pose  := ⟨⟨between traj.x, between traj.y, 0.0⟩, createQuaternionFromYaw nearestYaw⟩
    index := nearestIndex
    time  := between traj.relativeTime }

def calcNearestPoseInterp (traj : MPCTrajectory α) (selfPose : PoseMsg α) (maxDist maxYaw : α) :
    Except Failure (Option (Nearest α)) := do
  if traj.size = 0 then
    return none
  let autowareTraj := convertToAutowareTrajectory traj
  if autowareTraj.isEmpty then
    return none
  let nearestIndex ←
    findFirstNearestIndexWithSoftConstraints autowareTraj selfPose maxDist maxYaw
  if traj.size = 1 then
    return some (traj.nearestAt nearestIndex)
  let (prev, next) := nearestSegment traj selfPose nearestIndex
  let trajSegLength := UniverseUtils.calcDistance2d (traj.pointAt prev) (traj.pointAt next)
  if trajSegLength < 1.0e-5 then
    return some (traj.nearestAt nearestIndex)
  return some (interpolateNearest traj selfPose nearestIndex prev next trajSegLength)

def calcLateralError (egoPose refPose : PoseMsg α) : α :=
  let errX := egoPose.position.x - refPose.position.x
  let errY := egoPose.position.y - refPose.position.y
  let refYaw := getYaw refPose.orientation
  let latErr := -sin refYaw * errX + cos refYaw * errY
  latErr

def lerpAt (baseKeys baseValues : List α) (queryKey : α) : Except Failure α := do
  let values ← Interpolation.lerp baseKeys baseValues [queryKey]
  return values.headD 0.0

-- The columns before the one that throws are filled. Their sizes then differ, and the size is 0.
def linearInterpMPCTrajectory (inIndex : List α) (inTraj : MPCTrajectory α) (outIndex : List α) :
    Except Failure (Option (MPCTrajectory α)) := do
  if inTraj.size = 0 then
    return some inTraj
  let lerpArcLength (inputValue : List α) := Interpolation.lerp inIndex inputValue outIndex
  let out ← caught do
    let x ← lerpArcLength inTraj.x
    let y ← lerpArcLength inTraj.y
    let z ← lerpArcLength inTraj.z
    let yaw ← lerpArcLength inTraj.yaw
    let vx ← lerpArcLength inTraj.vx
    let k ← lerpArcLength inTraj.k
    let smoothK ← lerpArcLength inTraj.smoothK
    let relativeTime ← lerpArcLength inTraj.relativeTime
    return (⟨x, y, z, yaw, vx, k, smoothK, relativeTime⟩ : MPCTrajectory α)
  return out.filter fun t => t.size ≠ 0

end

-- The second of two points with one pose is never the nearest one.
section

variable {ps : List (TrajectoryPoint ℝ)} {q q' : TrajectoryPoint ℝ} {pose : PoseMsg ℝ}
  {point : PointMsg ℝ} {maxDist maxYaw : ℝ} {i : ℕ}

theorem searchFrom_lt_last {meets : TrajectoryPoint ℝ → Bool} {s : Search ℝ}
    (hm : meets q' = meets q) (hp : q'.pose = q.pose)
    (hs : s.isWithinConstraints = true → s.minIdx < i + ps.length + 1)
    (h : (searchFrom meets point i s (ps ++ [q, q'])).isWithinConstraints = true) :
    (searchFrom meets point i s (ps ++ [q, q'])).minIdx < i + ps.length + 1 := by
  induction ps generalizing i s with
  | nil =>
    simp only [List.nil_append, searchFrom, hm, hp] at h ⊢
    split_ifs at h ⊢ with h₁ h₂ h₃ h₄
    all_goals first
      | exact hs ‹_›
      | exact Nat.lt_succ_self i
      | exact absurd le_rfl ‹_›
  | cons p ps ih =>
    have hn : i + (p :: ps).length + 1 = i + 1 + ps.length + 1 := by
      rw [List.length_cons]
      omega
    rw [List.cons_append, searchFrom] at h ⊢
    dsimp only at h ⊢
    rw [hn] at hs ⊢
    split_ifs at h ⊢ with h₁ h₂ h₃
    · exact hs h₂
    · exact ih hs h
    · exact ih hs h
    · exact ih (fun _ => by show i < _; omega) h

theorem findNearestIndexFrom_lt_last {s : ℝ × ℕ} (hp : q'.pose = q.pose)
    (hs : s.2 < i + ps.length + 1) :
    findNearestIndexFrom point i s (ps ++ [q, q']) < i + ps.length + 1 := by
  induction ps generalizing i s with
  | nil =>
    simp only [List.nil_append, findNearestIndexFrom, hp]
    split_ifs
    all_goals first
      | exact hs
      | exact Nat.lt_succ_self i
      | exact absurd ‹_› (lt_irrefl _)
  | cons p ps ih =>
    rw [List.cons_append, findNearestIndexFrom,
      show i + (p :: ps).length + 1 = i + 1 + ps.length + 1 by rw [List.length_cons]; omega]
    rw [show i + (p :: ps).length + 1 = i + 1 + ps.length + 1 by rw [List.length_cons]; omega] at hs
    apply ih
    split_ifs
    · show i < _
      omega
    · exact hs

theorem findFirstNearestIndex_lt_last (hp : q'.pose = q.pose) :
    Returns (findFirstNearestIndexWithSoftConstraints (ps ++ [q, q']) pose maxDist maxYaw)
      (· < ps.length + 1) := by
  have hne : ps ++ [q, q'] ≠ [] := by simp
  have hd : withinDist pose maxDist q' = withinDist pose maxDist q := by
    rw [withinDist, withinDist, hp]
  have hy : withinYaw pose maxYaw q' = withinYaw pose maxYaw q := by
    rw [withinYaw, withinYaw, hp]
  have hfound {meets : TrajectoryPoint ℝ → Bool} (hm : meets q' = meets q)
      (hw : (searchFrom meets pose.position 0 .start (ps ++ [q, q'])).isWithinConstraints = true) :
      (searchFrom meets pose.position 0 .start (ps ++ [q, q'])).minIdx < ps.length + 1 := by
    simpa using searchFrom_lt_last hm hp (fun hs => (Bool.false_ne_true hs).elim) hw
  refine (validateNonEmpty_returns hne).bind fun _ _ => ?_
  refine .ite (fun hw => .pure (hfound (by simp only [hd, hy]) hw)) fun _ => ?_
  refine .ite (fun hw => .pure (hfound hd hw)) fun _ => ?_
  refine (validateNonEmpty_returns hne).bind fun _ _ => .pure ?_
  simpa using findNearestIndexFrom_lt_last (i := 0) (s := (maxValue, 0)) hp (by simp)

end

-- Every column has `n` entries.
structure MPCTrajectory.Columns {α : Type} (t : MPCTrajectory α) (n : ℕ) : Prop where
  x            : t.x.length = n
  y            : t.y.length = n
  z            : t.z.length = n
  yaw          : t.yaw.length = n
  vx           : t.vx.length = n
  k            : t.k.length = n
  smoothK      : t.smoothK.length = n
  relativeTime : t.relativeTime.length = n

namespace MPCTrajectory

variable {α : Type} {t : MPCTrajectory α} {p : MPCTrajectoryPoint α} {n : ℕ}

theorem Columns.size_eq (h : t.Columns n) : t.size = n := by
  simp [size, h.x, h.y, h.z, h.yaw, h.vx, h.k, h.smoothK, h.relativeTime]

theorem columns (h : 0 < t.size) : t.Columns t.size := by
  obtain ⟨h₁, h₂, h₃, h₄, h₅, h₆, h₇, h₈⟩ := t.size_eq h
  exact ⟨h₁, h₂, h₃, h₄, h₅, h₆, h₇, h₈⟩

theorem Columns.pushBack (h : t.Columns n) : (t.pushBack p).Columns (n + 1) := by
  constructor <;>
    simp [MPCTrajectory.pushBack, h.x, h.y, h.z, h.yaw, h.vx, h.k, h.smoothK, h.relativeTime]

end MPCTrajectory

-- The times of a trajectory begin at zero and increase.
section

variable {t : MPCTrajectory ℝ} {n : ℕ}

theorem travelTime_pos (t : MPCTrajectory ℝ) (i : ℕ) : 0 < travelTime t i := by
  rw [travelTime, stdMax_real]
  exact lt_of_lt_of_le (by norm_num) (le_max_right _ _)

theorem foldl_sums_sorted {step : ℕ → ℝ} {as : List ℕ} (hs : ∀ i ∈ as, 0 < step i) {b : ℝ}
    {xs : List ℝ} (h : (xs ++ [b]).Pairwise (· < ·)) :
    (as.foldl (fun s i => (s.1 + step i, s.2 ++ [s.1 + step i])) (b, xs ++ [b])).2.Pairwise
      (· < ·) := by
  induction as generalizing b xs with
  | nil => exact h
  | cons i as ih =>
    rw [List.foldl_cons]
    apply ih fun j hj => hs j (List.mem_cons_of_mem i hj)
    rw [List.pairwise_append]
    refine ⟨h, List.pairwise_singleton _ _, fun x hx y hy => ?_⟩
    obtain rfl := List.mem_singleton.mp hy
    have hb : x ≤ b := by
      obtain hx | hx := List.mem_append.mp hx
      · exact ((List.pairwise_append.mp h).2.2 x hx b (List.mem_singleton_self b)).le
      · exact (List.mem_singleton.mp hx).le
    have := hs i List.mem_cons_self
    show x < b + step i
    linarith

theorem calcMPCTrajectoryTime_sorted (t : MPCTrajectory ℝ) :
    (calcMPCTrajectoryTime t).relativeTime.Pairwise (· < ·) :=
  @foldl_sums_sorted _ _ (fun i _ => travelTime_pos t i) 0.0 [] (List.pairwise_singleton _ _)

theorem calcMPCTrajectoryTime_eq (t : MPCTrajectory ℝ) :
    ∃ ts, (calcMPCTrajectoryTime t).relativeTime = 0 :: ts ∧ ts.length = t.x.length - 1 := by
  obtain ⟨ts, ht, hl⟩ := foldl_push (fun b i => b + travelTime t i) (fun b i => b + travelTime t i)
    (List.range (t.x.length - 1)) (0.0 : ℝ) [0.0]
  have h0 : (0.0 : ℝ) = 0 := by norm_num
  refine ⟨ts, ?_, hl.trans List.length_range⟩
  rw [calcMPCTrajectoryTime]
  simpa [h0] using ht

theorem MPCTrajectory.Columns.calcMPCTrajectoryTime (h : t.Columns n) (hn : 0 < n) :
    (calcMPCTrajectoryTime t).Columns n := by
  obtain ⟨ts, ht, hl⟩ := calcMPCTrajectoryTime_eq t
  refine { h with relativeTime := ?_ }
  rw [ht, List.length_cons, hl, h.x]
  omega

end

-- The velocity `v` on the way from `previous` to `reference`, over the distance `ds`.
structure Approaches (accLim ds previous reference v : ℝ) : Prop where
  lower  : min previous reference ≤ v
  upper  : v ≤ max previous reference
  change : |v - previous| ≤ accLim * (ds / max |previous| epsilon)

-- The velocities behind the start of the smoothing.
structure Smoothed (accLim startVel : ℝ) (start : ℕ) (t : MPCTrajectory ℝ) (vs : List ℝ) : Prop where
  length : vs.length = t.vx.length
  before : ∀ i < start, vs.getD i 0 = t.vx.getD i 0
  first  : vs.getD start 0 = startVel
  second : start + 1 < t.vx.length → vs.getD (start + 1) 0 = startVel
  rest   : ∀ i, start + 2 ≤ i → i < t.vx.length →
    Approaches accLim (calcDistance2d t i (i - 1)) (vs.getD (i - 1) 0) (t.vx.getD i 0) (vs.getD i 0)

section

variable {accLim tau v ref ds startVel : ℝ} {t : MPCTrajectory ℝ} {vs : List ℝ} {start i m n : ℕ}

theorem calcDistance2d_nonneg (t : MPCTrajectory ℝ) (i j : ℕ) : 0 ≤ calcDistance2d t i j :=
  Real.sqrt_nonneg _

theorem epsilon_pos : (0 : ℝ) < epsilon := by
  show (0 : ℝ) < 2⁻¹ ^ 52
  positivity

theorem approaches_of_clamp {a dt : ℝ} (ha₀ : 0 ≤ a) (ha₁ : a ≤ 1) (hc : 0 ≤ accLim * dt)
    (hdt : dt = ds / max |v| epsilon) :
    Approaches accLim ds v ref
      (v + max (-(accLim * dt)) (min (accLim * dt) (a * v + (1 - a) * ref - v))) := by
  subst hdt
  have he : a * v + (1 - a) * ref - v = (1 - a) * (ref - v) := by ring
  have hb : 0 ≤ 1 - a := by linarith
  rw [he]
  set c := accLim * (ds / max |v| epsilon) with hcv
  rcases le_total v ref with h | h
  case inl =>
    have hd : 0 ≤ (1 - a) * (ref - v) := mul_nonneg hb (by linarith)
    have hd' : (1 - a) * (ref - v) ≤ ref - v := mul_le_of_le_one_left (by linarith) (by linarith)
    have hm : 0 ≤ min c ((1 - a) * (ref - v)) := le_min hc hd
    have hn : -c ≤ min c ((1 - a) * (ref - v)) := by linarith
    rw [max_eq_right hn]
    refine ⟨?_, ?_, ?_⟩
    · rw [min_eq_left h]
      linarith
    · rw [max_eq_right h]
      have := min_le_right c ((1 - a) * (ref - v))
      linarith
    · rw [add_sub_cancel_left, abs_of_nonneg hm]
      exact min_le_left _ _
  case inr =>
    have hd : (1 - a) * (ref - v) ≤ 0 := mul_nonpos_of_nonneg_of_nonpos hb (by linarith)
    have hd' : ref - v ≤ (1 - a) * (ref - v) := by nlinarith
    have hn : (1 - a) * (ref - v) ≤ c := by linarith
    rw [min_eq_right hn]
    have hm : max (-c) ((1 - a) * (ref - v)) ≤ 0 := max_le (by linarith) hd
    have hl := le_max_right (-c) ((1 - a) * (ref - v))
    refine ⟨?_, ?_, ?_⟩
    · rw [min_eq_right h]
      linarith
    · rw [max_eq_left h]
      linarith
    · rw [add_sub_cancel_left, abs_of_nonpos hm, ← hcv]
      linarith [le_max_left (-c) ((1 - a) * (ref - v))]

theorem smoothVelocity_approaches (ha : 0 ≤ accLim) (ht : 0 ≤ tau) :
    Approaches accLim (calcDistance2d t i (i - 1)) v (vs.getD i 0)
      (smoothVelocity accLim tau t (v, vs) i).1 := by
  have h0 : (0.0 : ℝ) = 0 := by norm_num
  have h1 : (1.0 : ℝ) = 1 := by norm_num
  have hm : 0 < max |v| (epsilon : ℝ) := lt_of_lt_of_le epsilon_pos (le_max_right _ _)
  have hdt : 0 ≤ calcDistance2d t i (i - 1) / max |v| epsilon :=
    div_nonneg (calcDistance2d_nonneg t i _) hm.le
  have hden : 0 < max (tau + calcDistance2d t i (i - 1) / max |v| epsilon) epsilon :=
    lt_of_lt_of_le epsilon_pos (le_max_right _ _)
  have ha₁ : tau / max (tau + calcDistance2d t i (i - 1) / max |v| epsilon) epsilon ≤ 1 := by
    rw [div_le_one hden]
    exact le_max_of_le_left (by linarith)
  have := @approaches_of_clamp _ v (vs.getD i 0) _ _ _ (div_nonneg ht hden.le) ha₁
    (mul_nonneg ha hdt) rfl
  simpa [smoothVelocity, h0, h1, fabs] using this

theorem Smoothed.within (h : Smoothed accLim startVel start t vs) {lo hi : ℝ}
    (hv : lo ≤ startVel ∧ startVel ≤ hi) (hr : ∀ v ∈ t.vx, lo ≤ v ∧ v ≤ hi) (hi' : i < vs.length) :
    lo ≤ vs.getD i 0 ∧ vs.getD i 0 ≤ hi := by
  have hl := h.length
  have href (j : ℕ) (hj : j < t.vx.length) : lo ≤ t.vx.getD j 0 ∧ t.vx.getD j 0 ≤ hi := by
    rw [List.getD_eq_getElem _ _ hj]
    exact hr _ (List.getElem_mem hj)
  induction i with
  | zero =>
    rcases start.eq_zero_or_pos with rfl | hs
    · rwa [h.first]
    · rw [h.before 0 hs]
      exact href 0 (by omega)
  | succ i ih =>
    obtain hlt | heq | heq | hgt : i + 1 < start ∨ i + 1 = start ∨ i = start ∨ start + 2 ≤ i + 1 := by
      omega
    · rw [h.before _ hlt]
      exact href _ (by omega)
    · rwa [heq, h.first]
    · subst heq
      rwa [h.second (by omega)]
    · have ha := h.rest (i + 1) hgt (by omega)
      have hp := ih (by omega)
      have hq := href (i + 1) (by omega)
      rw [Nat.add_sub_cancel] at ha
      exact ⟨(le_min hp.1 hq.1).trans ha.lower, ha.upper.trans (max_le hp.2 hq.2)⟩

structure Smoothing (accLim : ℝ) (start m : ℕ) (t : MPCTrajectory ℝ) (ref : List ℝ) (s : ℝ × List ℝ) :
    Prop where
  length  : s.2.length = ref.length
  current : s.1 = s.2.getD (start + 1 + m) 0
  before  : ∀ i ≤ start + 1, s.2.getD i 0 = ref.getD i 0
  after   : ∀ i, start + 2 + m ≤ i → s.2.getD i 0 = ref.getD i 0
  rest    : ∀ i, start + 2 ≤ i → i < start + 2 + m →
    Approaches accLim (calcDistance2d t i (i - 1)) (s.2.getD (i - 1) 0) (ref.getD i 0) (s.2.getD i 0)

theorem getD_set {xs : List ℝ} {x : ℝ} {j : ℕ} (h : j < xs.length) :
    (xs.set j x).getD i 0 = if i = j then x else xs.getD i 0 := by
  rw [List.getD_eq_getElem?_getD, List.getElem?_set, List.getD_eq_getElem?_getD]
  rcases eq_or_ne j i with rfl | hne
  · simp [h]
  · simp [hne, hne.symm]

theorem Smoothing.step {s : ℝ × List ℝ} {refs : List ℝ} (ha : 0 ≤ accLim) (ht : 0 ≤ tau)
    (h : Smoothing accLim start m t refs s) (hm : start + 2 + m < refs.length) :
    Smoothing accLim start (m + 1) t refs (smoothVelocity accLim tau t s (start + 2 + m)) := by
  obtain ⟨v, vs⟩ := s
  have hlt : start + 2 + m < vs.length := by
    rw [h.length]
    exact hm
  have hv : v = vs.getD (start + 1 + m) 0 := h.current
  have hs : Approaches accLim (calcDistance2d t (start + 2 + m) (start + 2 + m - 1)) v
      (vs.getD (start + 2 + m) 0) (smoothVelocity accLim tau t (v, vs) (start + 2 + m)).1 :=
    smoothVelocity_approaches ha ht
  rw [h.after _ le_rfl] at hs
  have hset : (smoothVelocity accLim tau t (v, vs) (start + 2 + m)).2 =
      vs.set (start + 2 + m) (smoothVelocity accLim tau t (v, vs) (start + 2 + m)).1 := rfl
  generalize (smoothVelocity accLim tau t (v, vs) (start + 2 + m)) = s' at *
  refine ⟨?_, ?_, fun i hi => ?_, fun i hi => ?_, fun i hi₀ hi => ?_⟩
  case refine_1 => simpa [hset] using h.length
  case refine_2 => rw [hset, getD_set hlt, if_pos (by omega)]
  case refine_3 => rw [hset, getD_set hlt, if_neg (by omega), h.before i hi]
  case refine_4 => rw [hset, getD_set hlt, if_neg (by omega), h.after i (by omega)]
  case refine_5 =>
    rw [hset, getD_set hlt, getD_set hlt, if_neg (by omega : i - 1 ≠ start + 2 + m)]
    split_ifs with he
    · subst he
      rw [show start + 2 + m - 1 = start + 1 + m by omega, ← hv]
      rwa [show start + 2 + m - 1 = start + 1 + m by omega] at hs
    · exact h.rest i hi₀ (by omega)

theorem smoothing {refs : List ℝ} (ha : 0 ≤ accLim) (ht : 0 ≤ tau)
    (hv : refs.getD (start + 1) 0 = startVel) (hm : start + 2 + m ≤ refs.length) :
    Smoothing accLim start m t refs
      ((List.range' (start + 2) m).foldl (smoothVelocity accLim tau t) (startVel, refs)) := by
  induction m with
  | zero => exact ⟨rfl, hv.symm, fun _ _ => rfl, fun _ _ => rfl, fun i h₀ h => by omega⟩
  | succ m ih =>
    rw [List.range'_concat, List.foldl_append, one_mul]
    exact (ih (by omega)).step ha ht (by omega)

theorem foldl_smoothVelocity_length (is : List ℕ) (s : ℝ × List ℝ) :
    (is.foldl (smoothVelocity accLim tau t) s).2.length = s.2.length := by
  induction is generalizing s with
  | nil => rfl
  | cons i is ih => exact (ih _).trans (List.length_set ..)

def Started (startVel : ℝ) (start : ℕ) (t : MPCTrajectory ℝ) (vx : List ℝ) : Prop :=
  vx.length = t.vx.length ∧ ∀ i, vx.getD i 0 =
    if i = start ∨ i = start + 1 ∧ i < t.vx.length then startVel else t.vx.getD i 0

theorem Started.smoothed {vx : List ℝ} (h : Started startVel start t vx) (hs : start < t.vx.length)
    (ha : 0 ≤ accLim) (ht : 0 ≤ tau) :
    Smoothed accLim startVel start t
      ((List.range' (start + 2) (t.vx.length - (start + 2))).foldl (smoothVelocity accLim tau t)
        (startVel, vx)).2 := by
  obtain ⟨hl, hg⟩ := h
  have hstart : vx.getD start 0 = startVel := by rw [hg, if_pos (.inl rfl)]
  have hbefore (i : ℕ) (hi : i < start) : vx.getD i 0 = t.vx.getD i 0 := by
    rw [hg, if_neg (by omega)]
  rcases Nat.lt_or_ge (start + 1) t.vx.length with hn | hn
  case inl =>
    have hnext : vx.getD (start + 1) 0 = startVel := by rw [hg, if_pos (.inr ⟨rfl, hn⟩)]
    have hf := smoothing (t := t) (m := t.vx.length - (start + 2)) ha ht hnext (by omega)
    refine ⟨hf.length.trans hl, fun i hi => ?_, ?_, fun _ => ?_, fun i hi₀ hi => ?_⟩
    · rw [hf.before i (by omega), hbefore i hi]
    · rw [hf.before start (by omega), hstart]
    · rw [hf.before _ le_rfl, hnext]
    · have := hf.rest i hi₀ (by omega)
      rwa [hg, if_neg (by omega)] at this
  case inr =>
    have hm : t.vx.length - (start + 2) = 0 := by omega
    rw [hm]
    exact ⟨hl, hbefore, hstart, fun hi => by omega, fun i hi₀ hi => by omega⟩

theorem dynamicSmoothingVelocity_returns (h : t.Columns n) (hn : 0 < n) (hs : start ≤ n - 2) :
    Returns (dynamicSmoothingVelocity start startVel accLim tau t) fun t' =>
      ∃ vs, vs.length = n ∧ t' = calcMPCTrajectoryTime { t with vx := vs } ∧
        (0 ≤ accLim → 0 ≤ tau → Smoothed accLim startVel start t vs) := by
  have hlt : start < t.vx.length := by
    rw [h.vx]
    omega
  have hfinal (vx : List ℝ) (hv : Started startVel start t vx) :
      ∃ vs, vs.length = n ∧
        calcMPCTrajectoryTime { t with
          vx := ((List.range' (start + 2) (t.size - (start + 2))).foldl (smoothVelocity accLim tau t)
            (startVel, vx)).2 } = calcMPCTrajectoryTime { t with vx := vs } ∧
        (0 ≤ accLim → 0 ≤ tau → Smoothed accLim startVel start t vs) := by
    refine ⟨_, ?_, rfl, fun ha ht => ?_⟩
    · rw [foldl_smoothVelocity_length, hv.1, h.vx]
    · rw [h.size_eq, ← h.vx]
      exact hv.smoothed hlt ha ht
  refine Returns.bind (P := fun vx => vx = t.vx.set start startVel) ⟨_, setAt_eq hlt, rfl⟩ ?_
  rintro _ rfl
  refine .ite (fun h₁ => ?_) fun h₁ => ?_
  case refine_1 =>
    rw [List.length_set] at h₁
    have hlt' : start + 1 < (t.vx.set start startVel).length := by
      rw [List.length_set, h.vx] at *
      omega
    refine Returns.bind (P := Started startVel start t) ⟨_, setAt_eq hlt', ?_, fun i => ?_⟩
      fun vx hv => .pure (hfinal vx hv)
    · simp
    · rw [getD_set hlt', getD_set hlt]
      rw [List.length_set] at hlt'
      split_ifs <;> first | rfl | omega
  case refine_2 =>
    rw [List.length_set] at h₁
    refine Returns.bind (P := Started startVel start t) (.pure ⟨?_, fun i => ?_⟩)
      fun vx hv => .pure (hfinal vx hv)
    · simp
    · rw [getD_set hlt]
      split_ifs <;> first | rfl | omega

end

end SafetyIsland.MPCUtils
