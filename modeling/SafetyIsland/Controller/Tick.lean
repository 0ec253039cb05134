import SafetyIsland.Controller.Callbacks

namespace SafetyIsland

open Ieee Supervision

structure TickClock where
  -- at the start of the tick
  now      : WallTime
  -- when a stale source latches, when the fault input latches
  stale    : ClockReading
  siFault  : ClockReading
  -- the stamp of the candidate
  command  : WallTime
  -- when the candidate of the follower latches
  follower : ClockReading
  -- at the stopped payload
  stop     : ClockReading
  -- the stamp of the output
  publish  : WallTime

structure InputData where
  currentTrajectory    : TrajectoryMsg
  currentOdometry      : OdometryMsg
  currentSteering      : SteeringReportMsg
  currentAccel         : AccelMsg
  currentOperationMode : OperationModeStateMsg

-- How the two controllers of the follower answer a tick: one of them is not ready, the process
-- exits, or they propose a command.
inductive FollowerResult
  | notReady
  | exited
  | output (lat : LateralMsg) (lon : LongitudinalMsg)

structure SourceCheck where
  watch   : SourceWatch
  timeout : Float
  name    : String
deriving DecidableEq

namespace Inputs

variable (cfg : Config) (c : Inputs)

def processData : Bool :=
  c.hasAccel && c.hasSteering && c.hasTrajectory && c.hasOdometry && c.hasOperationMode

def createInputData : Option InputData :=
  if !c.processData then none
  else some
    { currentTrajectory    := c.currentTrajectory
      currentOdometry      := c.currentOdometry
      currentSteering      := c.currentSteering
      currentAccel         := c.currentAccel
      currentOperationMode := c.currentOperationMode }

def feedback : List SourceCheck := [
  ⟨c.watchOdom, cfg.params.sourceTimeoutEgo, "odometry"⟩,
  ⟨c.watchAccel, cfg.params.sourceTimeoutEgo, "acceleration"⟩,
  ⟨c.watchSteering, cfg.params.sourceTimeoutSteering, "steering report"⟩,
  ⟨c.watchOpmode, cfg.params.sourceTimeoutOpmode, "operation mode"⟩,
  ⟨c.watchHeartbeat, cfg.params.sourceTimeoutHeartbeat, "vp heartbeat"⟩
]

def selected : SourceCheck :=
  if cfg.supervisionMode = .vpControl then
    ⟨c.watchVpCmd, cfg.params.sourceTimeoutCandidate, "vp command"⟩
  else ⟨c.watchCandidate, cfg.params.sourceTimeoutCandidate, "trajectory"⟩

def supervisorStaleReason (now : Float) : Option (String × Float) :=
  (c.feedback cfg ++ [c.selected cfg]).findSome? fun check =>
    if check.watch.stale now check.timeout then some (check.name, check.watch.ageSec now) else none

def allSourcesFresh (channel : SiChannel) (now : Float) : Bool :=
  let checks := [
    (c.watchOdom, cfg.params.sourceTimeoutEgo),
    (c.watchAccel, cfg.params.sourceTimeoutEgo),
    (c.watchSteering, cfg.params.sourceTimeoutSteering),
    (c.watchOpmode, cfg.params.sourceTimeoutOpmode)
  ]
  if checks.any fun (watch, timeout) => !watch.ever || watch.stale now timeout then false
  else if c.watchHeartbeat.stale now cfg.params.sourceTimeoutHeartbeat then false
  else if cfg.x5h && channel.fault then false
  else
    let selected := (c.selected cfg).watch
    if !selected.ever || selected.stale now cfg.params.sourceTimeoutCandidate then false else true

def feedbackSeen : Bool :=
  c.watchOdom.ever && c.watchAccel.ever && c.watchSteering.ever && c.watchOpmode.ever

end Inputs

namespace Controller

variable (cfg : Config) (c : Controller)

def vpToControl (cmd : DrivingCommandMsg) (now : WallTime) : ControlMsg :=
  let stamp := Clock.toRosTime now.seconds
  { stamp        := stamp
    controlTime  := default
    lateral      :=
      { stamp                             := stamp
        controlTime                       := default
        steeringTireAngle                 := narrow cmd.steeringTireAngleRad
        steeringTireRotationRate          := 0
        isDefinedSteeringTireRotationRate := false }
    longitudinal :=
      { stamp                 := stamp
        controlTime           := default
        velocity              := narrow cmd.targetSpeedMps
        acceleration          := narrow cmd.accelerationMps2
        jerk                  := 0
        isDefinedAcceleration := true
        isDefinedJerk         := false } }

def publication (decision : Decision) (source : SelectedSource) (control : ControlMsg)
    (now : WallTime) : Published :=
  let approvedStamp := Clock.toRosTime now.seconds
  let legacy : ControlMsg := { control with
    stamp   := approvedStamp
    lateral := { control.lateral with stamp := approvedStamp } }
  let legacyDdsEnabled := cfg.startup.legacyControlCmd = .always ∨ decision = .siStop
  { approved  :=
      { stamp          := approvedStamp
        session        := cfg.siSession
        outputSequence := c.outSeq + 1
        decision       := decision.toUInt8
        mode           := cfg.supervisionMode.toUInt8
        selectedSource := source.toUInt8
        sourceSession  := c.acceptedSourceSession
        sourceCycle    := c.acceptedSourceCycle
        faultId        := if c.supervision.latched then .ofNat c.supervision.faultId else 0
        control        := control }
    legacyDds := if legacyDdsEnabled ∧ cfg.outputMode.usesDds then some legacy else none
    can       := if cfg.outputMode.usesCan ∧ cfg.canOutput then some legacy else none }

-- Every byte that an actuator sees is handed on here.
def publishApprovedRequest (decision : Decision) (source : SelectedSource) (control : ControlMsg)
    (now : WallTime) : Controller :=
  let c := if decision = .normal then
    { c with lastApproved := control, hasApproved := true } else c
  { c with
    outSeq    := c.outSeq + 1
    published := c.published ++ [c.publication cfg decision source control now] }

def stoppedPayload (now : WallTime) (steady : SteadyTime) : ControlMsg :=
  let seed : ControlMsg := default
  let known : Option ControlMsg :=
    if c.hasApproved then some c.lastApproved
    else if c.hasSteering then some { seed with
      lateral := { seed.lateral with steeringTireAngle := c.currentSteering.steeringTireAngle } }
    else none
  let out := stopControl known cfg.params.stopDecelMps2
  let velocity :=
    if c.supervision.latched then
      narrow (c.stopRamp.velocity (widen cfg.params.stopDecelMps2) cfg.params.maxAbsVelocityMps
        steady)
    else out.longitudinal.velocity
  let stamp := Clock.toRosTime now.seconds
  { out with
    stamp        := stamp
    lateral      := { out.lateral with stamp := stamp }
    longitudinal := { out.longitudinal with stamp := stamp, velocity := velocity } }

def publishSiStop (now : WallTime) (clock : TickClock) : Controller :=
  c.publishApprovedRequest cfg .siStop cfg.selectedSource
    (c.stoppedPayload cfg now clock.stop.steady) clock.publish

def publishHold (clock : TickClock) : Controller :=
  c.publishApprovedRequest cfg .hold cfg.selectedSource
    (c.stoppedPayload cfg clock.stop.wall clock.stop.steady) clock.publish

def candidate (lat : LateralMsg) (lon : LongitudinalMsg) (now : WallTime) : ControlMsg :=
  let stamp := Clock.toRosTime now.seconds
  { stamp        := stamp
    controlTime  := default
    lateral      :=
      { stamp                             := stamp
        controlTime                       := default
        steeringTireAngle                 := lat.steeringTireAngle
        steeringTireRotationRate          := lat.steeringTireRotationRate
        isDefinedSteeringTireRotationRate := lat.isDefinedSteeringTireRotationRate }
    longitudinal := lon }

def followerViolation (out : ControlMsg) : Option String :=
  envelopeViolation (widen out.lateral.steeringTireAngle) (widen out.longitudinal.velocity)
    (widen out.longitudinal.acceleration) cfg.followerEnvelope

def publishControlCommand (lat : LateralMsg) (lon : LongitudinalMsg) (clock : TickClock) :
    Controller :=
  let out := candidate lat lon clock.command
  match followerViolation cfg out with
  | some why => (c.latchFault cfg ("follower " ++ why) clock.follower).publishSiStop cfg
      clock.stop.wall clock
  | none => c.publishApprovedRequest cfg .normal .follower out clock.publish

-- 1. Supervision of the sources and of the fault input.
def superviseSources (clock : TickClock) : Controller :=
  match c.supervisorStaleReason cfg clock.now.seconds with
  | some (reason, _) => c.latchFault cfg reason clock.stale
  | none => c

def superviseFaultInput (channel : SiChannel) (clock : TickClock) : Controller :=
  if cfg.x5h ∧ channel.faultEvents ≠ c.siFaultEventsSeen then
    { c with siFaultEventsSeen := channel.faultEvents }.latchFault cfg "si fault input"
      clock.siFault
  else c

-- 2. The latch of this tick: the new state and whether the tick must publish SI_STOP.
def reenableStep (channel : SiChannel) (clock : TickClock) : Controller × Bool :=
  if c.supervision.latched then
    let c := { c with
      reenable := c.reenable.expireIfOld clock.now.seconds cfg.params.reenableWindowS }
    let (supervision, pending, stop) := c.supervision.stopThisTick c.reenable.pending
      (c.reenable.pending && c.allSourcesFresh cfg channel clock.now.seconds)
    ({ c with supervision := supervision, reenable := { c.reenable with pending := pending } },
      stop)
  else (c, false)

-- 3.-8. The decision of a tick that is not latched.
def decideCycle (clock : TickClock) (follower : FollowerResult) : Option Controller :=
  if cfg.supervisionMode = .vpControl then
    if !c.hasVpCmd then some (c.publishHold cfg clock)
    else if !c.feedbackSeen then some (c.publishHold cfg clock)
    else
      let approved := vpToControl c.currentVpCmd clock.command
      let c := { c with
        acceptedSourceSession := c.currentVpCmd.session
        acceptedSourceCycle   := c.currentVpCmd.cycle }
      some (c.publishApprovedRequest cfg .normal .vpCommand approved clock.publish)
  else match c.createInputData with
  | none   => some (c.publishHold cfg clock)
  | some _ =>
    match follower with
    | .notReady       => some (c.publishHold cfg clock)
    | .exited         => none
    | .output lat lon => some (c.publishControlCommand cfg lat lon clock)

-- One control tick. It has no next state when the follower exits the process.
def callbackTimerControl (channel : SiChannel) (clock : TickClock) (follower : FollowerResult) :
    Option Controller :=
  let c := c.superviseSources cfg clock
  let c := c.superviseFaultInput cfg channel clock
  let (c, stop) := c.reenableStep cfg channel clock
  if stop then some (c.publishSiStop cfg clock.now clock)
  else c.decideCycle cfg clock follower

end Controller
end SafetyIsland
