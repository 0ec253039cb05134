import SafetyIsland.Longitudinal.Run
import SafetyIsland.Transition.Run

namespace SafetyIsland.Longitudinal

section

variable {α : Type} [CppMath α]

inductive Profile
  | before
  | after
deriving DecidableEq

namespace Profile

def stoppedAcc : Profile → α
  | before => -0.4
  | after  => -3.4

def emergencyAcc : Profile → α
  | before => -0.75
  | after  => -5.0

def emergencyJerk : Profile → α
  | before => -1.0
  | after  => -3.0

def minAcc : Profile → α
  | before => -0.75
  | after  => -5.0

def minJerk : Profile → α
  | before => -1.0
  | after  => -5.0

end Profile

-- The declared defaults. The two thresholds of the ego have none and are value-initialised.
def Params.declared (profile : Profile) : Params α where
  longitudinalCtrlPeriod                 := 0.15
  wheelBase                              := 2.74
  delayCompensationTime                  := 0.17
  enableSmoothStop                       := true
  enableOvershootEmergency               := true
  enableLargeTrackingErrorEmergency      := true
  enableSlopeCompensation                := true
  enableKeepStoppedUntilSteerConvergence := true
  stateTransition                        :=
    { driveStateStopDist              := 0.5
      driveStateOffsetStopDist        := 1.0
      stoppingStateStopDist           := 0.5
      stoppedStateEntryDurationTime   := 0.1
      stoppedStateEntryVel            := 0.01
      emergencyStateOvershootStopDist := 1.5
      emergencyStateTrajTransDev      := 3.0
      emergencyStateTrajRotDev        := 0.7854 }
  enableIntegrationAtLowSpeed            := false
  currentVelThresholdPidIntegrate        := 0.5
  timeThresholdBeforePidIntegrate        := 2.0
  enableBrakeKeepingBeforeStop           := false
  brakeKeepingAcc                        := -0.2
  stoppedState                           := ⟨0.0, profile.stoppedAcc⟩
  emergencyState                         := ⟨0.0, profile.emergencyAcc, profile.emergencyJerk⟩
  accFeedbackGain                        := 0.0
  maxAcc                                 := 3.0
  minAcc                                 := profile.minAcc
  maxJerk                                := 2.0
  minJerk                                := profile.minJerk
  maxAccCmdDiff                          := 50.0
  slopeSource                            := .rawPitch
  adaptiveTrajectoryVelocityTh           := 1.0
  maxPitchRad                            := 0.1
  minPitchRad                            := -0.1
  egoNearestDistThreshold                := 0.0
  egoNearestYawThreshold                 := 0.0

def PIDController.declared : PIDController α where
  params        := some
    { kp      := 1.0
      ki      := 0.1
      kd      := 0.0
      maxRetP := 1.0
      minRetP := -1.0
      maxRetI := 0.3
      minRetI := -0.3
      maxRetD := 0.0
      minRetD := 0.0
      maxRet  := 1.0
      minRet  := -1.0 }
  errorIntegral := 0.0
  prevError     := 0.0
  isFirstTime   := true

-- The two fields that the constructor leaves as they are may hold anything.
def SmoothStop.declared (strongAcc weakAccTime : α) : SmoothStop α where
  params      := some
    { maxStrongAcc   := -0.5
      minStrongAcc   := -0.8
      weakAcc        := -0.3
      weakStopAcc    := -0.8
      strongStopAcc  := -3.4
      minFastVel     := 0.5
      minRunningVel  := 0.01
      minRunningAcc  := 0.01
      weakStopTime   := 0.8
      weakStopDist   := -0.3
      strongStopDist := -0.5 }
  strongAcc   := strongAcc
  weakAccTime := weakAccTime

def State.declared (now : α) (smoothStop : SmoothStop α) (opMode : OperationModeStateMsg) :
    State α where
  currentMotion             := ⟨0.0, 0.0⟩
  trajectory                := []
  currentOperationMode      := opMode
  prevVehicleIsUnderControl := false
  underControlStartingTime  := 0.0
  controlState              := .stopped
  pidVel                    := .declared
  lpfVelError               := ⟨0.0, 0.9⟩
  smoothStop                := smoothStop
  lpfAccError               := ⟨0.0, 0.98⟩
  lpfPitch                  := ⟨0.0, 0.95⟩
  ctrlCmdVec                := []
  prevControlTime           := 0.0
  prevShift                 := .forward
  prevCtrlCmd               := ⟨0.0, 0.0⟩
  prevRawCtrlCmd            := ⟨0.0, 0.0⟩
  velHist                   := []
  prevKeepStoppedCondition  := none
  lastRunningTime           := now
  isSteerConverged          := false

inductive Event (α : Type)
  | run (input : InputData α) (now : Call → α)
  | sync (isSteerConverged : Bool)

def State.step [UniverseUtils.Slerp α] (p : Params α) (s : State α) : Event α → Option (State α)
  | .run input now         => (s.run p now input).toOption.map (·.2)
  | .sync isSteerConverged => some { s with isSteerConverged := isSteerConverged }

end

-- Exact arithmetic that evaluates. The library functions are right for numbers on an axis.
abbrev axisMath : CppMath ℚ where
  decLT        := inferInstance
  decLE        := inferInstance
  isFinite _   := true
  ceilToInt    := Rat.ceil
  hypot x y    := if y = 0 then |x| else |y|
  sin x        := x
  cos _        := 1
  atan x       := x
  atan2 y x    := if y = 0 ∧ 0 ≤ x then 0 else 3
  pi           := 3
  fmod x y     := x - y * (x / y).floor
  copysign x y := if y < 0 then -|x| else |x|
  toSingle     := id
  fabs         := abs
  sqrt x       := (Nat.sqrt x.num.toNat : ℚ) / Nat.sqrt x.den
  asin x       := x
  maxValue     := 2 ^ 1024 - 2 ^ 971
  epsilon      := 2⁻¹ ^ 52
  toSize x     := x.floor.toNat
  rosTime t    := t

abbrev axisSlerp : UniverseUtils.Slerp ℚ :=
  ⟨fun q _ _ => q⟩

def axisInput (vel stop place : ℚ) : InputData ℚ where
  currentTrajectory    := [0, 1, 2, 3].map fun x =>
    { pose                    := ⟨⟨x, 0, 0⟩, ⟨0, 0, 0, 1⟩⟩
      longitudinalVelocityMps := if x < stop then 2 else 0
      lateralVelocityMps      := 0
      accelerationMps2        := 1 / 2
      headingRateRps          := 0 }
  currentPose          := ⟨⟨place, 0, 0⟩, ⟨0, 0, 0, 1⟩⟩
  currentVel           := vel
  currentAcc           := 0
  currentOperationMode := ⟨default, 2, true, false, true, true, true, true⟩

abbrev axisStep : State ℚ → Event ℚ → Option (State ℚ) :=
  @State.step ℚ axisMath axisSlerp (@Params.declared ℚ axisMath .after)

def axisStart : State ℚ :=
  @State.declared ℚ axisMath 100 (@SmoothStop.declared ℚ axisMath 0 0)
    (axisInput 0 0 0).currentOperationMode

end SafetyIsland.Longitudinal
