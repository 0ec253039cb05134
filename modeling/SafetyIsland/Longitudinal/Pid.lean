import SafetyIsland.MotionUtils.Trajectory

namespace SafetyIsland.Longitudinal

open Fallible CppMath MotionUtils

section

variable {α : Type} [CppMath α]

structure LowpassFilter1d (α : Type) where
  x    : α
  gain : α

namespace LowpassFilter1d

def reset (f : LowpassFilter1d α) (x : α) : LowpassFilter1d α :=
  { f with x := x }

def getValue (f : LowpassFilter1d α) : α :=
  f.x

def filter (f : LowpassFilter1d α) (u : α) : α × LowpassFilter1d α :=
  let ret := f.gain * f.x + (1.0 - f.gain) * u
  (ret, { f with x := ret })

end LowpassFilter1d

structure PIDController.Params (α : Type) where
  kp      : α
  ki      : α
  kd      : α
  maxRetP : α
  minRetP : α
  maxRetI : α
  minRetI : α
  maxRetD : α
  minRetD : α
  maxRet  : α
  minRet  : α

-- The parameters are there once both the gains and the limits are set.
structure PIDController (α : Type) where
  params        : Option (PIDController.Params α)
  errorIntegral : α
  prevError     : α
  isFirstTime   : Bool

def limited (x lo hi : α) : α :=
  stdMin (stdMax x lo) hi

namespace PIDController

def integrated (p : Params α) (errorIntegral error dt : α) (enableIntegration : Bool) : α :=
  if enableIntegration then
    limited (errorIntegral + error * dt) (p.minRetI / p.ki) (p.maxRetI / p.ki)
  else errorIntegral

def calculate (c : PIDController α) (error dt : α) (enableIntegration : Bool) :
    Except Failure ((α × List α) × PIDController α) :=
  match c.params with
  | none   => .error (.exit "Trying to calculate uninitialized PID")
  | some p =>
    let retP := limited (p.kp * error) p.minRetP p.maxRetP
    let errorIntegral := integrated p c.errorIntegral error dt enableIntegration
    let retI := p.ki * errorIntegral
    let errorDifferential := if c.isFirstTime then 0.0 else (error - c.prevError) / dt
    let retD := limited (p.kd * errorDifferential) p.minRetD p.maxRetD
    let ret := limited (retP + retI + retD) p.minRet p.maxRet
    .ok ((ret, [retP, retI, retD]),
      { c with errorIntegral := errorIntegral, prevError := error, isFirstTime := false })

def reset (c : PIDController α) : PIDController α :=
  { c with errorIntegral := 0.0, prevError := 0.0, isFirstTime := true }

end PIDController

structure SmoothStop.Params (α : Type) where
  maxStrongAcc   : α
  minStrongAcc   : α
  weakAcc        : α
  weakStopAcc    : α
  strongStopAcc  : α
  minFastVel     : α
  minRunningVel  : α
  minRunningAcc  : α
  weakStopTime   : α
  weakStopDist   : α
  strongStopDist : α

-- The two fields that `init` assigns hold anything before it.
structure SmoothStop (α : Type) where
  params      : Option (SmoothStop.Params α)
  strongAcc   : α
  weakAccTime : α

namespace SmoothStop

def strongAccFor (p : Params α) (predVelInTarget predStopDist : α) : α :=
  if predStopDist < epsilon then p.minStrongAcc
  else
    let strongAcc := -(predVelInTarget * predVelInTarget) / (2.0 * predStopDist)
    stdMax (stdMin strongAcc p.maxStrongAcc) p.minStrongAcc

-- There is no check that the parameters are set; without them the strength is indeterminate.
def init (s : SmoothStop α) (predVelInTarget predStopDist now : α) : SmoothStop α :=
  { s with
    weakAccTime := now
    strongAcc   := s.params.elim s.strongAcc (strongAccFor · predVelInTarget predStopDist) }

structure Fit (α : Type) where
  meanT : α
  meanV : α
  sumTv : α
  sumTt : α

def Fit.add (size now : α) (f : Fit α) (vel : α × α) : Fit α :=
  let t := vel.1 - now
  let v := vel.2
  { meanT := f.meanT + t / size
    meanV := f.meanV + v / size
    sumTv := f.sumTv + t * v
    sumTt := f.sumTt + t * t }

-- The caller has checked that the parameters are set.
def calcTimeToStop (velHist : List (α × α)) (now : α) : Option α :=
  if velHist.isEmpty then none
  else
    let size : α := (velHist.length : α)
    let f := velHist.foldl (Fit.add size now) ⟨0.0, 0.0, 0.0, 0.0⟩
    if fabs (size * f.meanT * f.meanT - f.sumTt) < epsilon then none
    else
      let a := (size * f.meanT * f.meanV - f.sumTv) / (size * f.meanT * f.meanT - f.sumTt)
      let b := f.meanV - a * f.meanT
      if fabs a < epsilon then none
      else
        let timeToStop := -b / a
        if timeToStop > 0.0 then some timeToStop else none

structure Readings (α : Type) where
  timeToStop   : α
  weakAcc      : α
  sinceWeakAcc : α

def calculate (s : SmoothStop α) (stopDist currentVel currentAcc : α) (velHist : List (α × α))
    (delayTime : α) (now : Readings α) : Except Failure (α × SmoothStop α) :=
  match s.params with
  | none   => .error (.exit "SmoothStop: Error: Trying to calculate uninitialized SmoothStop")
  | some p =>
    let timeToStop := calcTimeToStop velHist now.timeToStop
    let isFastVel := decide (fabs currentVel > p.minFastVel)
    let isRunning :=
      decide (fabs currentVel > p.minRunningVel) || decide (fabs currentAcc > p.minRunningAcc)
    if stopDist < p.strongStopDist then .ok (p.strongStopAcc, s)
    else if stopDist < p.weakStopDist then .ok (p.weakStopAcc, s)
    else if isRunning then
      if timeToStop.any (fun t => decide (t > p.weakStopTime + delayTime)) then .ok (s.strongAcc, s)
      else if timeToStop.isNone && isFastVel then .ok (s.strongAcc, s)
      else .ok (p.weakAcc, { s with weakAccTime := now.weakAcc })
    else if now.sinceWeakAcc - s.weakAccTime < 0.5 then .ok (p.weakAcc, s)
    else .ok (p.strongStopAcc, s)

end SmoothStop

section

variable {error dt : α} {enableIntegration : Bool}

theorem PIDController.calculate_returns {c : PIDController α} (h : c.params ≠ none) :
    Returns (c.calculate error dt enableIntegration) fun r => r.2.params = c.params := by
  obtain ⟨p, hp⟩ := Option.ne_none_iff_exists'.mp h
  rw [calculate, hp]
  exact .ok rfl

variable {stopDist currentVel currentAcc delayTime : α} {velHist : List (α × α)}
  {now : SmoothStop.Readings α}

theorem SmoothStop.calculate_returns {s : SmoothStop α} {p : Params α} (h : s.params = some p) :
    Returns (s.calculate stopDist currentVel currentAcc velHist delayTime now) fun r =>
      r.2.params = s.params ∧ r.2.strongAcc = s.strongAcc ∧
      r.1 ∈ [p.strongStopAcc, p.weakStopAcc, s.strongAcc, p.weakAcc] := by
  rw [calculate, h]
  dsimp only
  split_ifs <;> exact .ok ⟨by simp [h], rfl, by simp⟩

end
end
end SafetyIsland.Longitudinal
