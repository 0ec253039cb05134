import SafetyIsland.Reference.Scalar

namespace SafetyIsland.VpReference

section

variable {α : Type} [Scalar α] [Libm α]

open Libm Scalar

def kExtentCapM : α := 25.0
def kMaxPoints : ℕ := 13
def kMinFollowerPoints : ℕ := 3
def kPathSpacingM : α := 1.0
def kResampleStepM : α := 0.25
def kSpeedLeadM : α := 1.0
def kNearArcsM : List α := [0.25, 0.5, 1.0, 2.0]
def kMaxHorizon : ℕ := 100

structure Pose2D (α : Type) where
  x   : α
  y   : α
  yaw : α
deriving DecidableEq

structure Point (α : Type) where
  x                : α
  y                : α
  yaw              : α
  velocityMps      : α
  timeFromStartS   : α
  accelerationMps2 : α
deriving DecidableEq

inductive Reject
  | none
  | invalidReference
  | noSourceStamp
  | noPath
  | noHorizon
deriving DecidableEq

def referenceReason (valid pathValid hasSourceStamp : Bool) (horizonLen : ℕ)
    (horizonDtS xMaxM : α) : Reject :=
  if !valid then .invalidReference
  else if !hasSourceStamp then .noSourceStamp
  else if !pathValid ∨ ¬(0.0 : α) < xMaxM then .noPath
  else if horizonLen < 2 ∨ ¬(0.0 : α) < horizonDtS then .noHorizon
  else .none

def wrapAngle (yaw : α) : α :=
  atan2 (sin yaw) (cos yaw)

def yawFromQuaternion (x y z w : α) : α :=
  atan2 (2.0 * (w * z + x * y)) (1.0 - 2.0 * (y * y + z * z))

def cumulativeArcLengthsFrom (s : α) (a : Pose2D α) : List (Pose2D α) → List α
  | []      => []
  | b :: bs =>
    let s := s + hypot (b.x - a.x) (b.y - a.y)
    s :: cumulativeArcLengthsFrom s b bs

def cumulativeArcLengths : List (Pose2D α) → List α
  | []      => []
  | a :: as => 0.0 :: cumulativeArcLengthsFrom 0.0 a as

-- `std::lower_bound` on a sorted range: the first entry that is not below the target.
def nearestIndex (s : List α) (target : α) : ℕ :=
  let pos := s.findIdx (fun v => ¬v < target)
  if pos = 0 then 0
  else if pos ≥ s.length then s.length - 1
  else
    let after := s.getD pos 0.0 - target
    let before := target - s.getD (pos - 1) 0.0
    if after < before then pos else pos - 1

def selectIndices (s : List α) (extentCapM : α) (maxPoints : ℕ) : List ℕ :=
  if s = [] then []
  else if s.length = 1 ∨ maxPoints ≤ 1 then [0]
  else
    let extent := stdMin extentCapM (s.getLastD 0.0)
    if extent ≤ 0.0 then [0]
    else
      let wanted := min maxPoints s.length
      (List.range wanted).foldl (fun out step =>
        let target := extent * (step : α) / ((wanted - 1 : ℕ) : α)
        let index := nearestIndex s target
        if out = [] ∨ index > out.getLastD 0 then out ++ [index] else out) []

-- The output of the densification, its arc length, and whether it has reached the cap.
structure Walk (α : Type) where
  out  : List (Pose2D α)
  arc  : α
  full : Bool

def Walk.push (w : Walk α) (p : Pose2D α) (arcCapM : α) : Walk α :=
  let back := w.out.getLastD p
  let arc := w.arc + hypot (p.x - back.x) (p.y - back.y)
  { out := w.out ++ [p], arc := arc, full := arc ≥ arcCapM }

-- The inner loop over `k = 1, …, n`, which returns as soon as the arc reaches the cap.
def resampleSegment (a b : Pose2D α) (dyaw : α) (n : ℕ) (arcCapM : α) :
    List ℕ → Walk α → Walk α
  | [],      w => w
  | k :: ks, w =>
    let f := (k : α) / (n : α)
    let p : Pose2D α :=
      { x   := a.x + (b.x - a.x) * f
        y   := a.y + (b.y - a.y) * f
        yaw := wrapAngle (a.yaw + dyaw * f) }
    let w := w.push p arcCapM
    if w.full then w else resampleSegment a b dyaw n arcCapM ks w

def resampleFrom (stepM arcCapM : α) (a : Pose2D α) : List (Pose2D α) → Walk α → Walk α
  | [],      w => w
  | b :: bs, w =>
    let seg := hypot (b.x - a.x) (b.y - a.y)
    if seg ≤ 1e-9 then resampleFrom stepM arcCapM b bs w
    else
      let dyaw := wrapAngle (b.yaw - a.yaw)
      let n := max 1 (ceilToInt (stdMin (seg / stepM) 1.0e6))
      let w := resampleSegment a b dyaw n.toNat arcCapM (.range' 1 n.toNat) w
      if w.full then w else resampleFrom stepM arcCapM b bs w

def resample (pts : List (Pose2D α)) (stepM arcCapM : α) : List (Pose2D α) :=
  match pts with
  | a :: b :: bs => (resampleFrom stepM arcCapM a (b :: bs) ⟨[a], 0.0, false⟩).out
  | _            => pts

-- The binary search for the adjacent knots around `s`, with fuel for its iterations.
def bisect (sKnots : List α) (s : α) : ℕ → ℕ → ℕ → ℕ × ℕ
  | 0,        lo, hi => (lo, hi)
  | fuel + 1, lo, hi =>
    if lo + 1 < hi then
      let mid := (lo + hi) / 2
      if sKnots.getD mid 0.0 < s then bisect sKnots s fuel mid hi else bisect sKnots s fuel lo mid
    else (lo, hi)

-- The speed and the time at the arc length `s`.
def sampleSpatial (sKnots vKnots : List α) (s hold dt : α) : α × α :=
  if s ≤ 0.0 then (stdMax 0.0 (vKnots.headD 0.0), 0.0)
  else if s ≥ sKnots.getLastD 0.0 then
    let extra := s - sKnots.getLastD 0.0
    (stdMax 0.0 hold, ((sKnots.length - 1 : ℕ) : α) * dt + extra / stdMax hold 0.3)
  else
    let (lo, hi) := bisect sKnots s sKnots.length 0 (sKnots.length - 1)
    let seg := sKnots.getD hi 0.0 - sKnots.getD lo 0.0
    let f := if seg ≤ 1e-9 then 0.0 else (s - sKnots.getD lo 0.0) / seg
    (stdMax 0.0 (vKnots.getD lo 0.0 * (1.0 - f) + vKnots.getD hi 0.0 * f), ((lo : α) + f) * dt)

-- The path `y = a x² + b x + c` in the frame of the ego pose, with fuel for its samples.
def samplePath (a b c : α) (ego : Pose2D α) (xLimit : α) :
    ℕ → α → List (Pose2D α) → Option (List (Pose2D α))
  | 0,        _, world => some world
  | fuel + 1, x, world =>
    if x ≤ xLimit + 1e-9 then
      let y := a * x * x + b * x + c
      let yaw := atan (2.0 * a * x + b)
      let p : Pose2D α :=
        { x   := ego.x + x * cos ego.yaw - y * sin ego.yaw
          y   := ego.y + x * sin ego.yaw + y * cos ego.yaw
          yaw := wrapAngle (ego.yaw + yaw) }
      if !isFinite p.x || !isFinite p.y || !isFinite p.yaw then none
      else samplePath a b c ego xLimit fuel (x + kPathSpacingM) (world ++ [p])
    else some world

-- The indices of the densified path that are handed on.
def chooseIndices (full : List α) : List ℕ :=
  let indices := selectIndices full kExtentCapM kMaxPoints
  let indices := if indices.headD 0 ≠ 0 then (0 :: indices).take kMaxPoints else indices
  let extent := stdMin kExtentCapM (full.getLastD 0.0)
  let near := kNearArcsM.filter fun want => (0.0 : α) < want ∧ want < extent
  let indices := indices ++ near.map (nearestIndex full)
  ((indices.insertionSort (· ≤ ·)).destutter (· ≠ ·)).take kMaxPoints

-- VisionPilot's schedule v(t) as knots over the arc length.
def arcKnots (dt : α) : α → List α → List α
  | s, v :: w :: vs =>
    let s' := s + 0.5 * (v + w) * dt
    s' :: arcKnots dt s' (w :: vs)
  | _, _ => []

def accelerations (speeds times : List α) (fallback : α) : List α :=
  let n := speeds.length
  if n = 1 then [fallback]
  else (List.range n).map fun i =>
    let i₀ := if i = 0 then 0 else i - 1
    let i₁ := if i = n - 1 then n - 1 else i + 1
    let span := times.getD i₁ 0.0 - times.getD i₀ 0.0
    let otherwise := if i = 0 then fallback else 0.0
    if span > 1e-6 then (speeds.getD i₁ 0.0 - speeds.getD i₀ 0.0) / span else otherwise

def kMaxSamples : ℕ := 26

def convert (a b c xMaxM : α) (ego : Pose2D α) (horizon : List α) (dt : α) :
    Option (List (Point α)) := do
  if ¬(0.0 : α) < xMaxM ∨ horizon.length < 2 ∨ ¬(0.0 : α) < dt then none
  let xLimit := stdMin xMaxM kExtentCapM
  let world ← samplePath a b c ego xLimit kMaxSamples 0.0 []
  let world := resample world kResampleStepM kExtentCapM
  let full := cumulativeArcLengths world
  if selectIndices full kExtentCapM kMaxPoints = [] then none
  let selected := (chooseIndices full).filterMap (world[·]?)
  let front := selected.headD ego
  let selected :=
    if hypot (front.x - ego.x) (front.y - ego.y) > 0.5 then (ego :: selected).take kMaxPoints
    else selected
  let lengths := cumulativeArcLengths selected
  let h := horizon.map (stdMax 0.0)
  let sKnots := 0.0 :: arcKnots dt 0.0 h
  let hold := h.getLastD 0.0
  let samples := lengths.map fun l => sampleSpatial sKnots h (l + kSpeedLeadM) hold dt
  let speeds := samples.map (·.1)
  let times := samples.map (·.2)
  let tH := stdMax (dt * ((h.length - 1 : ℕ) : α)) dt
  let fallback := (hold - h.headD 0.0) / tH
  let accels := accelerations speeds times fallback
  -- a finite horizon can still overflow the derived schedule
  if ¬(speeds ++ times ++ accels).all isFinite then none
  let out := (selected.zip (samples.zip accels)).map fun (p, (v, t), acc) =>
    { x := p.x, y := p.y, yaw := p.yaw, velocityMps := v, timeFromStartS := t,
      accelerationMps2 := acc }
  if out.length < kMinFollowerPoints then none
  some out

end
end SafetyIsland.VpReference
