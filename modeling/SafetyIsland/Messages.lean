import SafetyIsland.Clock

namespace SafetyIsland

-- A received sequence: its length and its buffer, which may be a null pointer.
structure Sequence (α : Type) where
  length : ℕ
  buffer : Option (List α)
  filled : ∀ l ∈ buffer, l.length = length

structure Point where
  x : Float
  y : Float
  z : Float
deriving DecidableEq

structure Quaternion where
  x : Float
  y : Float
  z : Float
  w : Float
deriving DecidableEq

structure Pose where
  position    : Point
  orientation : Quaternion
deriving DecidableEq

structure Vector3 where
  x : Float
  y : Float
  z : Float
deriving DecidableEq

-- nav_msgs_msg_Odometry: the header stamp, pose.pose and twist.twist.
structure OdometryMsg where
  stamp   : TimeMsg
  pose    : Pose
  linear  : Vector3
  angular : Vector3
deriving DecidableEq

-- geometry_msgs_msg_AccelWithCovarianceStamped: the header stamp and accel.accel.linear.
structure AccelMsg where
  stamp  : TimeMsg
  linear : Vector3
deriving DecidableEq

structure SteeringReportMsg where
  stamp             : TimeMsg
  steeringTireAngle : Float32
deriving DecidableEq

structure OperationModeStateMsg where
  stamp                      : TimeMsg
  mode                       : UInt8
  isAutowareControlEnabled   : Bool
  isInTransition             : Bool
  isStopModeAvailable        : Bool
  isAutonomousModeAvailable  : Bool
  isLocalModeAvailable       : Bool
  isRemoteModeAvailable      : Bool
deriving DecidableEq

structure TrajectoryPointMsg where
  timeFromStart           : TimeMsg
  pose                    : Pose
  longitudinalVelocityMps : Float32
  lateralVelocityMps      : Float32
  accelerationMps2        : Float32
  headingRateRps          : Float32
  frontWheelAngleRad      : Float32
  rearWheelAngleRad       : Float32
deriving DecidableEq

-- The trajectory as it is received.
structure TrajectoryMsgRaw where
  stamp  : TimeMsg
  points : Sequence TrajectoryPointMsg

-- The copy of a trajectory that the controller owns.
structure TrajectoryMsg where
  stamp  : TimeMsg
  points : List TrajectoryPointMsg
deriving DecidableEq

structure DrivingReferenceMsg where
  sourceStamp     : TimeMsg
  hasSourceStamp  : Bool
  session         : UInt32
  cycle           : UInt64
  valid           : Bool
  pathValid       : Bool
  pathA           : Float
  pathB           : Float
  pathC           : Float
  pathXMaxM       : Float
  horizonDtS      : Float
  speedHorizonMps : Sequence Float

structure DrivingCommandMsg where
  sourceStamp          : TimeMsg
  hasSourceStamp       : Bool
  session              : UInt32
  cycle                : UInt64
  valid                : Bool
  steeringTireAngleRad : Float
  targetSpeedMps       : Float
  accelerationMps2     : Float
deriving DecidableEq

structure LateralMsg where
  stamp                            : TimeMsg
  controlTime                      : TimeMsg
  steeringTireAngle                : Float32
  steeringTireRotationRate         : Float32
  isDefinedSteeringTireRotationRate : Bool
deriving DecidableEq

structure LongitudinalMsg where
  stamp                 : TimeMsg
  controlTime           : TimeMsg
  velocity              : Float32
  acceleration          : Float32
  jerk                  : Float32
  isDefinedAcceleration : Bool
  isDefinedJerk         : Bool
deriving DecidableEq

structure ControlMsg where
  stamp        : TimeMsg
  controlTime  : TimeMsg
  lateral      : LateralMsg
  longitudinal : LongitudinalMsg
deriving DecidableEq

-- The value-initialised messages `ControlMsg{}` and so on.
instance : Inhabited LateralMsg where
  default := ⟨default, default, 0, 0, false⟩

instance : Inhabited LongitudinalMsg where
  default := ⟨default, default, 0, 0, 0, false, false⟩

instance : Inhabited ControlMsg where
  default := ⟨default, default, default, default⟩

instance : Inhabited OdometryMsg where
  default := ⟨default, ⟨⟨0, 0, 0⟩, ⟨0, 0, 0, 0⟩⟩, ⟨0, 0, 0⟩, ⟨0, 0, 0⟩⟩

instance : Inhabited AccelMsg where
  default := ⟨default, ⟨0, 0, 0⟩⟩

instance : Inhabited SteeringReportMsg where
  default := ⟨default, 0⟩

instance : Inhabited DrivingCommandMsg where
  default := ⟨default, false, 0, 0, false, 0, 0, 0⟩

instance : Inhabited TrajectoryMsg where
  default := ⟨default, []⟩

def ControlMsg.unstamped (m : ControlMsg) : ControlMsg :=
  { m with
    stamp        := default
    lateral      := { m.lateral with stamp := default }
    longitudinal := { m.longitudinal with stamp := default } }

-- Two control messages that differ at most in their stamps.
def ControlMsg.EqUpToStamps (m₁ m₂ : ControlMsg) : Prop :=
  m₁.unstamped = m₂.unstamped

-- safety_island_msgs_msg_ApprovedRequest
structure ApprovedRequestMsg where
  stamp          : TimeMsg
  session        : UInt32
  outputSequence : UInt64
  decision       : UInt8
  mode           : UInt8
  selectedSource : UInt8
  sourceSession  : UInt32
  sourceCycle    : UInt64
  faultId        : UInt32
  control        : ControlMsg
deriving DecidableEq

end SafetyIsland
