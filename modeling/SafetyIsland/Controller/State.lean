import SafetyIsland.Can.Encoder
import SafetyIsland.Reference.EgoHistory
import SafetyIsland.SiChannel
import SafetyIsland.StartupConfig
import SafetyIsland.Supervision.Identity
import SafetyIsland.Supervision.Latch

namespace SafetyIsland

open Ieee Supervision

-- The supervision parameters of the node. A bound that VisionPilot's doubles are checked against is
-- a number that the float of the payload can hold, as the declared defaults are.
structure Params where
  sourceTimeoutCandidate : Float
  sourceTimeoutEgo       : Float
  sourceTimeoutSteering  : Float
  sourceTimeoutOpmode    : Float
  sourceTimeoutHeartbeat : Float
  maxSteeringRad         : Float
  maxAbsAccelMps2        : Float
  maxAbsVelocityMps      : Float
  followerMaxSteerRad    : Float
  stopDecelMps2          : Float32
  reenableWindowS        : Float
  steeringFinite         : IsFinite maxSteeringRad ∧ IsFinite (narrow maxSteeringRad)
  accelFinite            : IsFinite maxAbsAccelMps2 ∧ IsFinite (narrow maxAbsAccelMps2)
  velocityFinite         : IsFinite maxAbsVelocityMps ∧ IsFinite (narrow maxAbsVelocityMps)
  followerFinite         : IsFinite (followerMaxSteerRad + 1e-3)

-- The declared defaults, with the stop deceleration that the build selects.
def Params.declared (stopDecelMps2 : Float32) : Params where
  sourceTimeoutCandidate := 1.0
  sourceTimeoutEgo       := 0.4
  sourceTimeoutSteering  := 0.5
  sourceTimeoutOpmode    := 1 / 0
  sourceTimeoutHeartbeat := 0.5
  maxSteeringRad         := 0.6
  maxAbsAccelMps2        := 6.0
  maxAbsVelocityMps      := 60.0
  followerMaxSteerRad    := 0.70
  stopDecelMps2          := stopDecelMps2
  reenableWindowS        := 5.0
  steeringFinite         := by decide
  accelFinite            := by decide
  velocityFinite         := by decide
  followerFinite         := by decide

structure Config where
  startup    : StartupConfig
  params     : Params
  outputMode : Can.OutputMode
  -- whether the CAN output was initialised
  canOutput  : Bool
  -- whether the build has the fault input of the X5H
  x5h        : Bool
  -- the session of this boot
  siSession  : UInt32

namespace Config

def supervisionMode (cfg : Config) : Mode :=
  if cfg.startup.mode = .vpControl then .vpControl else .siControl

def selectedSource (cfg : Config) : SelectedSource :=
  if cfg.supervisionMode = .vpControl then .vpCommand else .follower

def followerEnvelope (cfg : Config) : Envelope where
  maxSteeringRad    := cfg.params.followerMaxSteerRad + 1e-3
  maxAbsVelocityMps := cfg.params.maxAbsVelocityMps
  maxAbsAccelMps2   := cfg.params.maxAbsAccelMps2

end Config

structure Published where
  approved  : ApprovedRequestMsg
  legacyDds : Option ControlMsg
  can       : Option ControlMsg
deriving DecidableEq

-- The members that the subscriber callbacks write and a control tick only reads.
structure Inputs where
  currentTrajectory          : TrajectoryMsg
  currentOdometry            : OdometryMsg
  currentSteering            : SteeringReportMsg
  currentAccel               : AccelMsg
  currentOperationMode       : OperationModeStateMsg
  hasTrajectory              : Bool
  hasOdometry                : Bool
  hasSteering                : Bool
  hasAccel                   : Bool
  hasOperationMode           : Bool
  watchHeartbeat             : SourceWatch
  watchSteering              : SourceWatch
  watchOdom                  : SourceWatch
  watchAccel                 : SourceWatch
  watchCandidate             : SourceWatch
  watchVpCmd                 : SourceWatch
  watchOpmode                : SourceWatch
  vpCandidateIdentity        : VpCandidateIdentity
  egoHistory                 : VpReference.EgoHistory
  vpReferenceRejects         : UInt64
  autowareTrajectoryIdentity : AutowareTrajectoryIdentity
  currentVpCmd               : DrivingCommandMsg
  hasVpCmd                   : Bool

-- The members that only a control tick and, for the source of a reference, its callback write.
structure Outputs where
  lastApproved          : ControlMsg
  hasApproved           : Bool
  outSeq                : UInt64
  acceptedSourceSession : UInt32
  acceptedSourceCycle   : UInt64
  -- everything published so far, the oldest first
  published             : List Published

structure Controller extends Inputs, Outputs where
  stopRamp          : StopRamp
  siFaultEventsSeen : UInt32
  supervision       : SupervisionState
  reenable          : ReenableRequest

namespace Controller

def init : Controller where
  currentTrajectory          := default
  currentOdometry            := default
  currentSteering            := default
  currentAccel               := default
  currentOperationMode       := ⟨default, 1, true, false, true, true, true, true⟩
  hasTrajectory              := false
  hasOdometry                := false
  hasSteering                := false
  hasAccel                   := false
  hasOperationMode           := false
  stopRamp                   := .init
  siFaultEventsSeen          := 0
  watchHeartbeat             := .init
  watchSteering              := .init
  watchOdom                  := .init
  watchAccel                 := .init
  watchCandidate             := .init
  watchVpCmd                 := .init
  watchOpmode                := .init
  vpCandidateIdentity        := .init
  egoHistory                 := .init
  vpReferenceRejects         := 0
  autowareTrajectoryIdentity := .init
  supervision                := .init
  reenable                   := .init
  lastApproved               := default
  hasApproved                := false
  outSeq                     := 0
  currentVpCmd               := default
  hasVpCmd                   := false
  acceptedSourceSession      := 0
  acceptedSourceCycle        := 0
  published                  := []

-- A fault starts an episode with a captured ramp origin, or it renames the one that is latched.
-- Either way it invalidates an earlier press, unless it repeats the reason that is latched.
def latchFault (cfg : Config) (c : Controller) (why : String) (clock : ClockReading) :
    Controller :=
  if !c.supervision.latched then
    { c with
      supervision := c.supervision.latch why
      stopRamp    := .start
        (if c.hasOdometry then c.currentOdometry.linear.x else 0) c.watchOdom
        clock.wall.seconds cfg.params.sourceTimeoutEgo clock.steady
      reenable    := c.reenable.clear }
  else if c.supervision.reason ≠ why then
    { c with
      supervision := { c.supervision with reason := why }
      reenable    := c.reenable.clear }
  else c

section

variable (cfg : Config) (c : Controller) (why : String) (clock : ClockReading)

@[simp]
theorem latchFault_toInputs : (c.latchFault cfg why clock).toInputs = c.toInputs := by
  unfold latchFault
  split_ifs <;> rfl

@[simp]
theorem latchFault_siFaultEventsSeen :
    (c.latchFault cfg why clock).siFaultEventsSeen = c.siFaultEventsSeen := by
  unfold latchFault
  split_ifs <;> rfl

@[simp]
theorem latchFault_toOutputs : (c.latchFault cfg why clock).toOutputs = c.toOutputs := by
  unfold latchFault
  split_ifs <;> rfl

@[simp]
theorem latchFault_latched : (c.latchFault cfg why clock).supervision.latched = true := by
  unfold latchFault
  split_ifs <;> simp_all

@[simp]
theorem latchFault_reason : (c.latchFault cfg why clock).supervision.reason = why := by
  unfold latchFault
  split_ifs <;> simp_all

theorem latchFault_faultId :
    (c.latchFault cfg why clock).supervision.faultId =
      if c.supervision.latched then c.supervision.faultId else c.supervision.faultId + 1 := by
  unfold latchFault SupervisionState.latch
  split_ifs <;> simp_all

theorem latchFault_pending :
    (c.latchFault cfg why clock).reenable.pending = true ↔
      c.supervision.latched = true ∧ c.supervision.reason = why ∧ c.reenable.pending = true := by
  unfold latchFault
  split_ifs <;> simp_all

theorem latchFault_reenable_of_pending
    (h : (c.latchFault cfg why clock).reenable.pending = true) :
    c.latchFault cfg why clock = c := by
  have ⟨hl, hr, _⟩ := (latchFault_pending cfg c why clock).mp h
  simp [latchFault, hl, hr]

theorem latchFault_stopRamp (hl : c.supervision.latched = true) :
    (c.latchFault cfg why clock).stopRamp = c.stopRamp := by
  unfold latchFault
  split_ifs <;> simp_all

end

end Controller
end SafetyIsland
