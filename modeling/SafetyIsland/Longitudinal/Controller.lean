import SafetyIsland.Longitudinal.Pid
import SafetyIsland.Longitudinal.Utils

namespace SafetyIsland.Longitudinal

open Fallible UniverseUtils MotionUtils LongitudinalUtils MPCUtils CppMath Libm Angular

def operationModeStateAutonomous : UInt8 := 2

structure Motion (α : Type) where
  vel : α
  acc : α

structure StateAfterDelay (α : Type) where
  vel             : α
  acc             : α
  runningDistance : α

inductive Shift
  | forward
  | reverse
deriving DecidableEq

inductive ControlState
  | drive
  | stopping
  | stopped
  | emergency
deriving DecidableEq

inductive SlopeSource
  | rawPitch
  | trajectoryPitch
  | trajectoryAdaptive
deriving DecidableEq

structure StateTransitionParams (α : Type) where
  driveStateStopDist              : α
  driveStateOffsetStopDist        : α
  stoppingStateStopDist           : α
  stoppedStateEntryDurationTime   : α
  stoppedStateEntryVel            : α
  emergencyStateOvershootStopDist : α
  emergencyStateTrajTransDev      : α
  emergencyStateTrajRotDev        : α

structure EmergencyStateParams (α : Type) where
  vel  : α
  acc  : α
  jerk : α

structure Params (α : Type) where
  longitudinalCtrlPeriod                 : α
  wheelBase                              : α
  delayCompensationTime                  : α
  enableSmoothStop                       : Bool
  enableOvershootEmergency               : Bool
  enableLargeTrackingErrorEmergency      : Bool
  enableSlopeCompensation                : Bool
  enableKeepStoppedUntilSteerConvergence : Bool
  stateTransition                        : StateTransitionParams α
  enableIntegrationAtLowSpeed            : Bool
  currentVelThresholdPidIntegrate        : α
  timeThresholdBeforePidIntegrate        : α
  enableBrakeKeepingBeforeStop           : Bool
  brakeKeepingAcc                        : α
  stoppedState                           : Motion α
  emergencyState                         : EmergencyStateParams α
  accFeedbackGain                        : α
  maxAcc                                 : α
  minAcc                                 : α
  maxJerk                                : α
  minJerk                                : α
  maxAccCmdDiff                          : α
  slopeSource                            : SlopeSource
  adaptiveTrajectoryVelocityTh           : α
  maxPitchRad                            : α
  minPitchRad                            : α
  egoNearestDistThreshold                : α
  egoNearestYawThreshold                 : α

structure InputData (α : Type) where
  currentTrajectory    : List (TrajectoryPoint α)
  currentPose          : PoseMsg α
  currentVel           : α
  currentAcc           : α
  currentOperationMode : OperationModeStateMsg

-- The calls of `Clock::now()` in one run, each of which is reached at most once.
inductive Call
  -- `getDt`
  | dt | controlTime
  -- `predictedStateAfterDelay`, for the command with some index
  | commandAge (i : ℕ) | lastCommandAge
  -- `updateControlState`
  | running | stopped | underControl | smoothStopInit
  -- `applyVelocityFeedback`, `SmoothStop::calculate`
  | timeUnderControl | timeToStop | weakAcc | sinceWeakAcc
  -- `storeAccelCmd`, `createCtrlCmdMsg`
  | storedStamp | storedAge | cmdStamp | velHist
deriving DecidableEq

structure StoredCmd (α : Type) where
  stamp        : α
  acceleration : α

structure ControlData (α : Type) where
  isFarFromTrajectory : Bool
  interpolatedTraj    : List (TrajectoryPoint α)
  nearestIdx          : ℕ
  targetIdx           : ℕ
  stateAfterDelay     : StateAfterDelay α
  currentMotion       : Motion α
  shift               : Shift
  stopDist            : α
  slopeAngle          : α
  dt                  : α

-- LongitudinalMsg, with the time that its stamp stands for.
structure LongitudinalCmd (α : Type) where
  stamp                 : α
  velocity              : α
  acceleration          : α
  jerk                  : α
  isDefinedAcceleration : Bool
  isDefinedJerk         : Bool

structure State (α : Type) where
  currentMotion             : Motion α
  trajectory                : List (TrajectoryPoint α)
  currentOperationMode      : OperationModeStateMsg
  prevVehicleIsUnderControl : Bool
  underControlStartingTime  : α
  controlState              : ControlState
  pidVel                    : PIDController α
  lpfVelError               : LowpassFilter1d α
  smoothStop                : SmoothStop α
  lpfAccError               : LowpassFilter1d α
  lpfPitch                  : LowpassFilter1d α
  ctrlCmdVec                : List (StoredCmd α)
  prevControlTime           : α
  prevShift                 : Shift
  prevCtrlCmd               : Motion α
  prevRawCtrlCmd            : Motion α
  velHist                   : List (α × α)
  prevKeepStoppedCondition  : Option Bool
  lastRunningTime           : α
  isSteerConverged          : Bool

namespace State

variable {α : Type} [CppMath α]

-- `!t` for a time that zero marks as unset.
def isUnset (t : α) : Bool :=
  t ≤ 0.0 ∧ 0.0 ≤ t

def setTrajectory (s : State α) (msg : List (TrajectoryPoint α)) : State α :=
  if !isValidTrajectory msg then s
  else if msg.length < 2 then s
  else { s with trajectory := msg }

def isReady (input : InputData α) : Bool :=
  2 ≤ input.currentTrajectory.length

variable (p : Params α) (s : State α) (now : Call → α)

def getDt : α × State α :=
  let dt :=
    if isUnset s.prevControlTime then p.longitudinalCtrlPeriod
    else now .dt - s.prevControlTime
  let maxDt := p.longitudinalCtrlPeriod * 2.0
  let minDt := p.longitudinalCtrlPeriod * 0.5
  (stdMax (stdMin dt maxDt) minDt, { s with prevControlTime := now .controlTime })

def isUnderControl : Bool :=
  s.currentOperationMode.isAutowareControlEnabled &&
    s.currentOperationMode.mode == operationModeStateAutonomous

-- The loop over the stored commands from the index `i` on.
def predictFrom (delay currentVel : α) : ℕ → StateAfterDelay α → List (StoredCmd α) →
    StateAfterDelay α
  | _, pred, []          => pred
  | i, pred, cmd :: cmds =>
    if now (.commandAge i) - cmd.stamp < delay then
      let timeToNextAcc :=
        match cmds with
        | []     => stdMin (now .lastCommandAge - cmd.stamp) delay
        | c :: _ => stdMin (c.stamp - cmd.stamp) delay
      let acc := cmd.acceleration
      let predAcc := copysign 1.0 (SinglePrecision.toSingle pred.vel) * acc
      let runningDistance := pred.runningDistance +
        fabs (fabs pred.vel * timeToNextAcc + 0.5 * acc * timeToNextAcc * timeToNextAcc)
      let predVel := pred.vel +
        (if pred.vel < 0.0 then -acc * timeToNextAcc else acc * timeToNextAcc)
      -- the sign of the velocity has changed
      if predVel / currentVel < 0.0 then ⟨0.0, predAcc, runningDistance⟩
      else predictFrom delay currentVel (i + 1) ⟨predVel, predAcc, runningDistance⟩ cmds
    else predictFrom delay currentVel (i + 1) pred cmds

def predictedStateAfterDelay (currentMotion : Motion α) (delay : α) : StateAfterDelay α :=
  let currentVel := currentMotion.vel
  let currentAcc := currentMotion.acc
  if s.ctrlCmdVec.isEmpty || s.currentOperationMode.mode != operationModeStateAutonomous then
    let timeToStop := -currentVel / currentAcc
    let time := if timeToStop > 0.0 ∧ timeToStop < delay then timeToStop else delay
    { vel             := currentVel + currentAcc * time
      acc             := currentAcc
      runningDistance := fabs (time * currentVel + 0.5 * currentAcc * time * time) }
  else predictFrom now delay currentVel 0 ⟨currentVel, currentAcc, 0.0⟩ s.ctrlCmdVec

def getCurrentShift (targetVel : α) : Shift :=
  if targetVel > 1e-5 then .forward
  else if targetVel < -1e-5 then .reverse
  else s.prevShift

def slopeAngle (currentVel rawPitch trajPitch : α) : α × LowpassFilter1d α :=
  let (filtered, lpf) := s.lpfPitch.filter rawPitch
  match p.slopeSource with
  | .rawPitch           => (filtered, lpf)
  | .trajectoryPitch    => (trajPitch, s.lpfPitch)
  | .trajectoryAdaptive =>
    if currentVel > p.adaptiveTrajectoryVelocityTh then (trajPitch, lpf) else (filtered, lpf)

def isDeviationLarge (nearest currentPose : PoseMsg α) : Bool :=
  let transDeviation := calcDistance2d nearest.position currentPose.position
  let rotDeviation := fabs (normalizeRadian (getYaw nearest.orientation -
    getYaw currentPose.orientation))
  decide (p.stateTransition.emergencyStateTrajTransDev < transDeviation) ||
    decide (p.stateTransition.emergencyStateTrajRotDev < rotDeviation)

variable [Slerp α]

def calcInterpolatedTrajPointAndSegment (traj : List (TrajectoryPoint α)) (pose : PoseMsg α) :
    Except Failure (TrajectoryPoint α × ℕ) := do
  if traj.length = 1 then
    return (← vectorAt traj 0, 0)
  lerpTrajectoryPoint traj pose p.egoNearestDistThreshold p.egoNearestYawThreshold

def insertTarget (nearestIdx : ℕ) (runningDistance : α) (nearest : TrajectoryPoint α)
    (traj : List (TrajectoryPoint α)) :
    Except Failure (List (TrajectoryPoint α) × TrajectoryPoint α) := do
  if runningDistance > 0.01 then
    let traj := removeOverlapPoints traj 0
    let targetPose ← findTrajectoryPoseAfterDistance nearestIdx runningDistance traj
    let (target, segment) ← calcInterpolatedTrajPointAndSegment p traj targetPose
    return (← insertAt traj (segment + 1) target, target)
  return (traj, nearest)

-- What is computed once the ego is known to be close to the trajectory.
def nearControlData (currentPose : PoseMsg α) (d : ControlData α)
    (nearest : TrajectoryPoint α) : Except Failure (ControlData α × State α) := do
  let after := s.predictedStateAfterDelay now d.currentMotion p.delayCompensationTime
  let (traj, target) ← insertTarget p d.nearestIdx after.runningDistance nearest d.interpolatedTraj
  let traj := removeOverlapPoints traj 0
  let nearestIdx ← findFirstNearestIndexWithSoftConstraints traj nearest.pose
    p.egoNearestDistThreshold p.egoNearestYawThreshold
  let targetIdx ← findFirstNearestIndexWithSoftConstraints traj target.pose
    p.egoNearestDistThreshold p.egoNearestYawThreshold
  let targetPoint ← vectorAt traj targetIdx
  let shift := s.getCurrentShift targetPoint.longitudinalVelocityMps
  let pidVel := if shift ≠ s.prevShift then s.pidVel.reset else s.pidVel
  let nearestPoint ← vectorAt traj nearestIdx
  let stopDist ← calcStopDistance nearestPoint.pose traj p.egoNearestDistThreshold
    p.egoNearestYawThreshold
  let rawPitch := -1.0 * getPitchByPose currentPose.orientation
  let trajPitch ← getPitchByTraj traj targetIdx p.wheelBase
  let (slope, lpfPitch) := s.slopeAngle p d.currentMotion.vel rawPitch trajPitch
  return (
    { d with
      interpolatedTraj := traj
      nearestIdx       := nearestIdx
      targetIdx        := targetIdx
      stateAfterDelay  := after
      shift            := shift
      stopDist         := stopDist
      slopeAngle       := slope },
    { s with pidVel := pidVel, prevShift := shift, lpfPitch := lpfPitch })

def farControlData (dt : α) (traj : List (TrajectoryPoint α)) (idx : ℕ) : ControlData α :=
  { isFarFromTrajectory := true
    interpolatedTraj    := traj
    nearestIdx          := idx
    targetIdx           := idx
    stateAfterDelay     := ⟨0.0, 0.0, 0.0⟩
    currentMotion       := s.currentMotion
    shift               := .forward
    stopDist            := 0.0
    slopeAngle          := 0.0
    dt                  := dt }

def getControlData (currentPose : PoseMsg α) : Except Failure (ControlData α × State α) := do
  let (dt, s) := s.getDt p now
  if s.trajectory.isEmpty then
    return (s.farControlData dt [] 0, s)
  let (nearest, segment) ← calcInterpolatedTrajPointAndSegment p s.trajectory currentPose
  let traj ← insertAt s.trajectory (segment + 1) nearest
  let far := s.farControlData dt traj (segment + 1)
  if isDeviationLarge p nearest.pose currentPose then
    return (far, s)
  s.nearControlData p now currentPose { far with isFarFromTrajectory := false } nearest

end State
end SafetyIsland.Longitudinal
