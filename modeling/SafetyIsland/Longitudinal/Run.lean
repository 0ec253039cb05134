import SafetyIsland.Longitudinal.Controller

namespace SafetyIsland.Longitudinal

open Fallible UniverseUtils MotionUtils LongitudinalUtils MPCUtils CppMath Libm

namespace State

section

variable {α : Type} [CppMath α]

variable (p : Params α) (s : State α) (now : Call → α)

def calcEmergencyCtrlCmd (dt : α) : Motion α :=
  let e := p.emergencyState
  { vel := applyDiffLimitFilter e.vel s.prevRawCtrlCmd.vel dt e.acc
    acc := applyDiffLimitFilter (stdClamp e.acc p.minAcc p.maxAcc) s.prevRawCtrlCmd.acc dt e.jerk }

def departureFromStopping (stopDist : α) : Bool :=
  stopDist > p.stateTransition.driveStateStopDist + p.stateTransition.driveStateOffsetStopDist

def departureFromStopped (stopDist : α) : Bool :=
  stopDist > p.stateTransition.driveStateStopDist

def stoppingCondition (stopDist : α) : Bool :=
  stopDist < p.stateTransition.stoppingStateStopDist

-- An ego that slips against its gear counts as stopped.
def isNotRunning (currentVel : α) (shift : Shift) : Bool :=
  decide (fabs currentVel < p.stateTransition.stoppedStateEntryVel) ||
    match shift with
    | .forward => decide (currentVel < 0.0)
    | .reverse => decide (0.0 < currentVel)

def recordRunning (d : ControlData α) : State α :=
  if isNotRunning p d.currentMotion.vel d.shift then s
  else { s with lastRunningTime := now .running }

def stoppedCondition : Bool :=
  !isUnset s.lastRunningTime &&
    decide (now .stopped - s.lastRunningTime > p.stateTransition.stoppedStateEntryDurationTime)

def emergencyCondition (stopDist currentVelCmd : α) : Bool :=
  p.enableOvershootEmergency &&
    decide (stopDist < -p.stateTransition.emergencyStateOvershootStopDist) &&
    decide (currentVelCmd < 1e-3)

def recordUnderControl : State α :=
  if s.isUnderControl != s.prevVehicleIsUnderControl then
    { s with
      prevVehicleIsUnderControl := s.isUnderControl
      underControlStartingTime  := if s.isUnderControl then now .underControl else 0.0 }
  else s

def forgetKeepStopped : State α :=
  if s.controlState ≠ .stopped then { s with prevKeepStoppedCondition := none } else s

def changeControlState (c : ControlState) : State α :=
  { s with controlState := c }

def initSmoothStop (d : ControlData α) : State α :=
  let predVelInTarget := d.stateAfterDelay.vel
  let predStopDist := d.stopDist -
    0.5 * (predVelInTarget + d.currentMotion.vel) * p.delayCompensationTime
  { s with smoothStop := s.smoothStop.init predVelInTarget predStopDist (now .smoothStopInit) }

-- What the branches of `updateControlState` look at.
structure Conditions where
  emergency             : Bool
  stopped               : Bool
  stopping              : Bool
  departureFromStopping : Bool
  departureFromStopped  : Bool

def conditions (d : ControlData α) (currentVelCmd : α) : Conditions :=
  { emergency             := emergencyCondition p d.stopDist currentVelCmd
    stopped               := s.stoppedCondition p now
    stopping              := stoppingCondition p d.stopDist
    departureFromStopping := departureFromStopping p d.stopDist
    departureFromStopped  := departureFromStopped p d.stopDist }

def updateDrive (c : Conditions) (d : ControlData α) : State α :=
  if c.emergency then s.changeControlState .emergency
  else if !s.isUnderControl && c.stopped then s.changeControlState .stopped
  else if p.enableSmoothStop then
    if c.stopping then (s.initSmoothStop p now d).changeControlState .stopping else s
  else if c.stopped && !c.departureFromStopped then s.changeControlState .stopped
  else s

def updateStopping (c : Conditions) : State α :=
  if c.emergency then s.changeControlState .emergency
  else if c.stopped then s.changeControlState .stopped
  else if c.departureFromStopping then
    { s with
      pidVel       := s.pidVel.reset
      lpfVelError  := s.lpfVelError.reset 0.0
      prevCtrlCmd  := { s.prevCtrlCmd with acc := stdMax 0.0 s.prevRawCtrlCmd.acc }
      controlState := .drive }
  else s

-- The vehicle may start after the steering has converged twice in a row.
def currentKeepStoppedCondition (currentVel : α) : Bool :=
  decide (fabs currentVel < 1e-3) && !s.isSteerConverged

def keepStoppedCondition (currentVel : α) : Bool :=
  s.prevKeepStoppedCondition.elim true (s.currentKeepStoppedCondition currentVel || ·)

def updateStopped (c : Conditions) (currentVel : α) : State α :=
  if c.departureFromStopped then
    let recorded :=
      { s with prevKeepStoppedCondition := some (s.currentKeepStoppedCondition currentVel) }
    if p.enableKeepStoppedUntilSteerConvergence && s.keepStoppedCondition currentVel then recorded
    else
      { recorded with
        pidVel       := s.pidVel.reset
        lpfVelError  := s.lpfVelError.reset 0.0
        lpfAccError  := s.lpfAccError.reset 0.0
        controlState := .drive }
  else s

def updateEmergency (c : Conditions) : State α :=
  if c.stopped then s.changeControlState .stopped
  else if !c.emergency && !s.isUnderControl then s.changeControlState .drive
  else s

-- What is recorded before the branches.
def recorded (d : ControlData α) : State α :=
  ((s.recordRunning p now d).recordUnderControl now).forgetKeepStopped

def transitState (c : Conditions) (d : ControlData α) : State α :=
  match s.controlState with
  | .drive     => s.updateDrive p now c d
  | .stopping  => s.updateStopping c
  | .stopped   => s.updateStopped p c d.currentMotion.vel
  | .emergency => s.updateEmergency c

def updateControlState (d : ControlData α) : Except Failure (State α) := do
  let nearestPoint ← vectorAt d.interpolatedTraj d.nearestIdx
  let c := (s.recordRunning p now d).conditions p now d (fabs nearestPoint.longitudinalVelocityMps)
  return (s.recorded p now d).transitState p now c d

def getTimeUnderControl : α :=
  if isUnset s.underControlStartingTime then 0.0
  else now .timeUnderControl - s.underControlStartingTime

def applyVelocityFeedback (d : ControlData α) (target : TrajectoryPoint α) :
    Except Failure (α × State α) := do
  let velSign : α := match d.shift with
    | .forward => 1.0
    | .reverse => -1.0
  let currentVel := d.currentMotion.vel
  let diffVel := (target.longitudinalVelocityMps - currentVel) * velSign
  let vehicleIsMoving := decide (fabs currentVel > p.currentVelThresholdPidIntegrate)
  let vehicleIsStuck := !vehicleIsMoving &&
    decide (s.getTimeUnderControl now > p.timeThresholdBeforePidIntegrate)
  let enableIntegration :=
    (vehicleIsMoving || p.enableIntegrationAtLowSpeed && vehicleIsStuck) && s.isUnderControl
  let (errorVelFiltered, lpfVelError) := s.lpfVelError.filter diffVel
  let ((pidAcc, _), pidVel) ← s.pidVel.calculate errorVelFiltered d.dt enableIntegration
  let ffScale := stdClamp (fabs currentVel / stdMax (fabs target.longitudinalVelocityMps) 0.1)
    0.5 2.0
  let ffAcc := target.accelerationMps2 * ffScale
  return (ffAcc + pidAcc, { s with lpfVelError := lpfVelError, pidVel := pidVel })

-- The loop down from the stop: the smallest acceleration before it, and its index.
def minAccBeforeStop (traj : List (TrajectoryPoint α)) : ℕ → α × ℕ → Except Failure (α × ℕ)
  | 0,     found => return found
  | n + 1, found => do
    let point ← vectorAt traj n
    if point.accelerationMps2 > SinglePrecision.toSingle found.1 then
      return found
    minAccBeforeStop traj n (point.accelerationMps2, n)

def keepBrakeBeforeStop (d : ControlData α) (targetMotion : Motion α) (nearestIdx : ℕ) :
    Except Failure (Motion α) := do
  if p.enableBrakeKeepingBeforeStop = false then
    return targetMotion
  match searchZeroVelocityIndex d.interpolatedTraj with
  | none         => return targetMotion
  | some stopIdx =>
    let (minAcc, minAccIdx) ← minAccBeforeStop d.interpolatedTraj (stopIdx + 1) (maxValue, 2 ^ 64 - 1)
    let brakeKeepingAcc := stdMax p.brakeKeepingAcc minAcc
    if nearestIdx ≥ minAccIdx ∧ targetMotion.acc > brakeKeepingAcc then
      return { targetMotion with acc := brakeKeepingAcc }
    return targetMotion

def applySlopeCompensation (inputAcc pitch : α) (shift : Shift) : α :=
  if !p.enableSlopeCompensation then inputAcc
  else
    let pitchLimited := stdMin (stdMax pitch p.minPitchRad) p.maxPitchRad
    let sign : α := match shift with
      | .forward => 1.0
      | .reverse => -1.0
    inputAcc + sign * 9.81 * sin pitchLimited

def storeAccelCmd (accel : α) : State α :=
  let cmds :=
    if s.controlState = .drive then
      s.ctrlCmdVec ++ [⟨rosTime (now .storedStamp), SinglePrecision.toSingle accel⟩]
    else []
  match cmds with
  | _ :: c :: _ :: _ =>
    if now .storedAge - c.stamp > p.delayCompensationTime then { s with ctrlCmdVec := cmds.tail }
    else { s with ctrlCmdVec := cmds }
  | _ => { s with ctrlCmdVec := cmds }

-- The raw command of the states that drive, and its limits.
def rawDriveCmd (d : ControlData α) (target : TrajectoryPoint α) :
    Except Failure (Motion α × State α) := do
  let (acc, s) ← s.applyVelocityFeedback p now d target
  return (← keepBrakeBeforeStop p d ⟨target.longitudinalVelocityMps, acc⟩ d.targetIdx, s)

def rawStoppingCmd (d : ControlData α) : Except Failure (Motion α × State α) := do
  let (acc, smoothStop) ← s.smoothStop.calculate d.stopDist d.currentMotion.vel d.currentMotion.acc
    s.velHist p.delayCompensationTime ⟨now .timeToStop, now .weakAcc, now .sinceWeakAcc⟩
  return (⟨p.stoppedState.vel, acc⟩, { s with smoothStop := smoothStop })

def limitRawCmd (raw : Motion α) (dt : α) : Motion α :=
  { raw with
    acc := applyDiffLimitFilterBetween (stdClamp raw.acc p.minAcc p.maxAcc) s.prevRawCtrlCmd.acc dt
      p.maxJerk p.minJerk }

def rawCtrlCmd (d : ControlData α) (target : TrajectoryPoint α) :
    Except Failure (Motion α × State α) :=
  match s.controlState with
  | .emergency => return (s.calcEmergencyCtrlCmd p d.dt, s)
  | .drive     => do
    let (raw, s) ← s.rawDriveCmd p now d target
    return (s.limitRawCmd p raw d.dt, s)
  | .stopping  => do
    let (raw, s) ← s.rawStoppingCmd p now d
    return (s.limitRawCmd p raw d.dt, s)
  -- not reached: the caller has treated this state
  | .stopped   =>
    return (s.limitRawCmd p ⟨target.longitudinalVelocityMps, target.accelerationMps2⟩ d.dt, s)

-- The command as a pedal position, before its last limit.
def pedalPosition (d : ControlData α) (target : TrajectoryPoint α) :
    Except Failure (Motion α × State α) :=
  if s.controlState = .stopped then
    return (p.stoppedState, { s with prevRawCtrlCmd := ⟨0.0, 0.0⟩ })
  else do
    let (raw, s) ← s.rawCtrlCmd p now d target
    let (_, lpfAccError) := s.lpfAccError.filter (d.currentMotion.acc - raw.acc)
    let accCmd := raw.acc - lpfAccError.getValue * p.accFeedbackGain
    return (⟨raw.vel, applySlopeCompensation p accCmd d.slopeAngle d.shift⟩,
      { s with prevRawCtrlCmd := raw, lpfAccError := lpfAccError })

def calcCtrlCmd (d : ControlData α) : Except Failure (Motion α × State α) := do
  let target ← vectorAt d.interpolatedTraj d.targetIdx
  let (pedal, s) ← s.pedalPosition p now d target
  let s := s.storeAccelCmd p now s.prevRawCtrlCmd.acc
  return ({ pedal with
    acc := applyDiffLimitFilter pedal.acc s.prevCtrlCmd.acc d.dt p.maxAccCmdDiff }, s)

def createCtrlCmdMsg (ctrlCmd : Motion α) (currentVel : α) : LongitudinalCmd α × State α :=
  let velHist := s.velHist ++ [(now .velHist, currentVel)]
  let kept := toSize (p.delayCompensationTime / p.longitudinalCtrlPeriod)
  ({ stamp                 := rosTime (now .cmdStamp)
     velocity              := SinglePrecision.toSingle ctrlCmd.vel
     acceleration          := SinglePrecision.toSingle ctrlCmd.acc
     jerk                  := 0.0
     isDefinedAcceleration := true
     isDefinedJerk         := false },
    { s with
      velHist     := velHist.drop (velHist.length - kept)
      prevCtrlCmd := ctrlCmd })

def setInput (input : InputData α) : State α :=
  { s.setTrajectory input.currentTrajectory with
    currentMotion        := ⟨input.currentVel, input.currentAcc⟩
    currentOperationMode := input.currentOperationMode }

-- The cycle of an ego that is far from its trajectory.
def runFar (d : ControlData α) : LongitudinalCmd α × State α :=
  let s := if p.enableLargeTrackingErrorEmergency then s.changeControlState .emergency else s
  let raw := s.calcEmergencyCtrlCmd p d.dt
  { s with prevRawCtrlCmd := raw }.createCtrlCmdMsg p now raw d.currentMotion.vel

variable [Slerp α]

-- The command that is published; the horizon holds it alone, with a time step of zero.
def run (input : InputData α) : Except Failure (LongitudinalCmd α × State α) := do
  let s := s.setInput input
  let (d, s) ← s.getControlData p now input.currentPose
  if d.isFarFromTrajectory then
    return s.runFar p now d
  let s ← s.updateControlState p now d
  let (ctrlCmd, s) ← s.calcCtrlCmd p now d
  return s.createCtrlCmdMsg p now ctrlCmd d.currentMotion.vel

end
end State
end SafetyIsland.Longitudinal
