import SafetyIsland.Controller.State

namespace SafetyIsland

open Ieee Supervision

-- The clock readings that a callback takes: the arrival time that it notes, and the readings of
-- `latchFault` when it latches.
structure CallbackClock where
  now   : WallTime
  latch : ClockReading

-- A validating callback that calls `latchFault(why)` and returns is written as the error `why`, and
-- every other return as the state it leaves.
abbrev Ingested := Except String Controller

namespace Controller

variable (cfg : Config) (c : Controller)

def callbackSteeringStatus (msg : SteeringReportMsg) (clock : CallbackClock) : Controller :=
  { c with
    currentSteering := msg
    hasSteering     := true
    watchSteering   := .note clock.now.seconds }

def callbackOperationModeState (msg : OperationModeStateMsg) (clock : CallbackClock) :
    Controller :=
  { c with
    currentOperationMode := msg
    hasOperationMode     := true
    watchOpmode          := .note clock.now.seconds }

def callbackOdometry [Libm Float] (msg : OdometryMsg) (clock : CallbackClock) : Controller :=
  let c := { c with
    currentOdometry := msg
    hasOdometry     := true
    watchOdom       := .note clock.now.seconds }
  if cfg.supervisionMode = .siControl ∧ cfg.startup.trajectorySource = .vp then
    let q := msg.pose.orientation
    let pose : VpReference.Pose2D Float :=
      { x   := msg.pose.position.x
        y   := msg.pose.position.y
        yaw := VpReference.yawFromQuaternion q.x q.y q.z q.w }
    { c with egoHistory := c.egoHistory.note msg.stamp.sec msg.stamp.nanosec pose }
  else c

def callbackAcceleration (msg : AccelMsg) (clock : CallbackClock) : Controller :=
  { c with
    currentAccel := msg
    hasAccel     := true
    watchAccel   := .note clock.now.seconds }

def finitePoint (p : TrajectoryPointMsg) : Bool :=
  p.pose.position.x.isFinite && p.pose.position.y.isFinite && p.pose.position.z.isFinite &&
  p.pose.orientation.x.isFinite && p.pose.orientation.y.isFinite &&
  p.pose.orientation.z.isFinite && p.pose.orientation.w.isFinite &&
  p.longitudinalVelocityMps.isFinite && p.lateralVelocityMps.isFinite &&
  p.accelerationMps2.isFinite && p.headingRateRps.isFinite &&
  p.frontWheelAngleRad.isFinite && p.rearWheelAngleRad.isFinite

def runnablePoints (msg : Option TrajectoryMsgRaw) : Option (TimeMsg × List TrajectoryPointMsg) := do
  let msg ← msg
  if msg.points.length < VpReference.kMinFollowerPoints ∨ msg.points.length > 250 then none
  let points ← msg.points.buffer
  return (msg.stamp, points)

def callbackTrajectory (msg : Option TrajectoryMsgRaw) (clock : CallbackClock) : Ingested :=
  if cfg.supervisionMode ≠ .siControl ∨ cfg.startup.trajectorySource ≠ .autoware then .ok c
  else match runnablePoints msg with
  | none => .error "invalid autoware trajectory"
  | some (stamp, points) =>
    if !points.all finitePoint then .error "non-finite autoware trajectory"
    else match c.autowareTrajectoryIdentity.check stamp with
    | .duplicate => .ok c
    | .accept => .ok
      { c with
        currentTrajectory          := { stamp := stamp, points := points }
        hasTrajectory              := true
        autowareTrajectoryIdentity := .note stamp
        watchCandidate             := .note clock.now.seconds }
    | _ => .error "autoware trajectory stamp regression or invalid stamp"

-- `std::round` of a number that is not negative.
def roundNonneg (x : Float) : ℕ :=
  let n := truncate x
  (if x - .ofInt n ≥ 0.5 then n + 1 else n).toNat

def referencePoint [Libm Float] (p : VpReference.Point Float) : TrajectoryPointMsg :=
  let t := stdMax 0 p.timeFromStartS
  let fraction := (t - .ofInt (truncate t)) * 1e9
  { timeFromStart :=
      { sec     := .ofInt (truncate (stdMin t 2147483647))
        nanosec := .ofNat (min 999999999 (roundNonneg fraction)) }
    pose :=
      { position    := { x := p.x, y := p.y, z := 0 }
        orientation := { x := 0, y := 0, z := Libm.sin (0.5 * p.yaw), w := Libm.cos (0.5 * p.yaw) } }
    longitudinalVelocityMps := narrow p.velocityMps
    lateralVelocityMps      := 0
    accelerationMps2        := narrow p.accelerationMps2
    headingRateRps          := 0
    frontWheelAngleRad      := 0
    rearWheelAngleRad       := 0 }

def ignoreReference : Controller :=
  { c with vpReferenceRejects := c.vpReferenceRejects + 1 }

-- The horizon of a reference that is short enough and not a null pointer.
def boundedHorizon (msg : DrivingReferenceMsg) : Option (List Float) :=
  if msg.speedHorizonMps.length > VpReference.kMaxHorizon then none
  else if msg.speedHorizonMps.length > 0 then msg.speedHorizonMps.buffer
  else some []

def finiteReference (msg : DrivingReferenceMsg) (horizon : List Float) : Bool :=
  msg.pathA.isFinite && msg.pathB.isFinite && msg.pathC.isFinite && msg.pathXMaxM.isFinite &&
  msg.horizonDtS.isFinite && horizon.all Float.isFinite

def callbackDrivingReference [Libm Float] (msg : Option DrivingReferenceMsg)
    (clock : CallbackClock) : Ingested :=
  if cfg.supervisionMode ≠ .siControl ∨ cfg.startup.trajectorySource ≠ .vp then .ok c
  else match msg with
  | none => .error "invalid vp driving reference"
  | some msg =>
    match boundedHorizon msg with
    | none => .error "invalid vp driving reference"
    | some horizon =>
      if VpReference.referenceReason msg.valid msg.pathValid msg.hasSourceStamp
          msg.speedHorizonMps.length msg.horizonDtS msg.pathXMaxM ≠ .none then .ok c.ignoreReference
      else if !finiteReference msg horizon then .error "non-finite vp driving reference"
      else match c.vpCandidateIdentity.check msg.session msg.cycle msg.sourceStamp with
      | .duplicate => .ok c
      | .accept =>
        match c.egoHistory.find msg.sourceStamp.sec msg.sourceStamp.nanosec with
        | none => .ok c.ignoreReference
        | some ego =>
          match VpReference.convert msg.pathA msg.pathB msg.pathC msg.pathXMaxM ego horizon
              msg.horizonDtS with
          | none => .ok c.ignoreReference
          | some points => .ok
            { c with
              currentTrajectory     :=
                { stamp := msg.sourceStamp, points := points.map referencePoint }
              hasTrajectory         := true
              vpCandidateIdentity   :=
                c.vpCandidateIdentity.note msg.session msg.cycle msg.sourceStamp
              acceptedSourceSession := msg.session
              acceptedSourceCycle   := msg.cycle
              watchCandidate        := .note clock.now.seconds }
      | _ => .error "vp driving reference regression or invalid stamp"

def callbackDrivingCommand (msg : DrivingCommandMsg) (clock : CallbackClock) : Ingested :=
  if !msg.valid then .ok c
  else if !msg.hasSourceStamp then .ok c
  else match c.vpCandidateIdentity.check msg.session msg.cycle msg.sourceStamp with
  | .duplicate => .ok c
  | .accept =>
    if !msg.steeringTireAngleRad.isFinite ∨ !msg.targetSpeedMps.isFinite ∨
        !msg.accelerationMps2.isFinite then .error "vp command not finite"
    else if msg.steeringTireAngleRad.abs > cfg.params.maxSteeringRad then
      .error "vp steering out of range"
    else if msg.targetSpeedMps < 0 ∨ msg.targetSpeedMps > cfg.params.maxAbsVelocityMps then
      .error "vp speed out of range"
    else if msg.accelerationMps2.abs > cfg.params.maxAbsAccelMps2 then
      .error "vp accel out of range"
    else .ok
      { c with
        vpCandidateIdentity := c.vpCandidateIdentity.note msg.session msg.cycle msg.sourceStamp
        currentVpCmd        := msg
        hasVpCmd            := true
        watchVpCmd          := .note clock.now.seconds }
  | _ => .error "vp command regression or invalid stamp"

def callbackReenable (data : Bool) (clock : CallbackClock) : Controller :=
  if data then { c with reenable := .request clock.now.seconds } else c

def callbackHeartbeat (clock : CallbackClock) : Controller :=
  { c with watchHeartbeat := .note clock.now.seconds }

end Controller
end SafetyIsland
