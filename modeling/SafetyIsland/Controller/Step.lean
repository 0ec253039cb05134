import SafetyIsland.Controller.Tick
import SafetyIsland.Transition.Run

namespace SafetyIsland

open Ieee Supervision Transition

inductive Message
  | steeringStatus (msg : SteeringReportMsg)
  | operationModeState (msg : OperationModeStateMsg)
  | odometry (msg : OdometryMsg)
  | acceleration (msg : AccelMsg)
  | trajectory (msg : Option TrajectoryMsgRaw)
  | drivingReference (msg : Option DrivingReferenceMsg)
  | drivingCommand (msg : DrivingCommandMsg)
  | reenable (data : Bool)
  | heartbeat

-- The controller thread runs callbacks and control ticks one after the other. The datagrams of the
-- fault input arrive on another task.
inductive Event
  | receive (msg : Message) (clock : CallbackClock)
  | siRx (data : List UInt8)
  | tick (clock : TickClock) (follower : FollowerResult)

def Event.isTick : Event → Bool
  | .tick _ _ => true
  | _         => false

def Event.isPress : Event → Bool
  | .receive (.reenable true) _ => true
  | _                           => false

def Event.now : Event → Option WallTime
  | .receive _ clock => some clock.now
  | .siRx _          => none
  | .tick clock _    => some clock.now

def Ordered (es : List Event) : Prop :=
  (es.filterMap Event.now).Pairwise (· ≤ ·)

instance (es : List Event) : Decidable (Ordered es) :=
  inferInstanceAs (Decidable (List.Pairwise _ _))

structure System where
  controller : Controller
  channel    : SiChannel

namespace Controller

variable [Libm Float] (cfg : Config) (c : Controller)

def ingest (clock : CallbackClock) : Message → Ingested
  | .steeringStatus msg     => .ok (c.callbackSteeringStatus msg clock)
  | .operationModeState msg => .ok (c.callbackOperationModeState msg clock)
  | .odometry msg           => .ok (c.callbackOdometry cfg msg clock)
  | .acceleration msg       => .ok (c.callbackAcceleration msg clock)
  | .trajectory msg         => c.callbackTrajectory cfg msg clock
  | .drivingReference msg   => c.callbackDrivingReference cfg msg clock
  | .drivingCommand msg     => c.callbackDrivingCommand cfg msg clock
  | .reenable data          => .ok (c.callbackReenable data clock)
  | .heartbeat              => .ok (c.callbackHeartbeat clock)

def receive (clock : CallbackClock) (msg : Message) : Controller :=
  match c.ingest cfg clock msg with
  | .ok c      => c
  | .error why => c.latchFault cfg why clock.latch

end Controller

namespace System

def init : System where
  controller := .init
  channel    := .init

-- The next state, unless the process exits.
def step [Libm Float] (cfg : Config) (s : System) : Event → Option System
  | .receive msg clock   => some { s with controller := s.controller.receive cfg clock msg }
  | .siRx data           => some { s with channel := s.channel.rx data }
  | .tick clock follower => do
    let c ← s.controller.callbackTimerControl cfg s.channel clock follower
    return { s with controller := c }

end System

-- Concrete clocks, settings and messages, for concrete runs.
namespace Sample

theorem second_valid : ∀ n : Fin 8, IsFinite (Float.ofNat n) ∧ 0 ≤ Float.ofNat n := by
  decide

def second (n : Fin 8) : ClockReading where
  wall   := ⟨.ofNat n, (second_valid n).1, (second_valid n).2⟩
  steady := n * 1000000000

def message (n : Fin 8) (msg : Message) : Event :=
  .receive msg ⟨(second n).wall, second n⟩

-- The readings of a tick in the second `n`, during which neither clock advances.
def clock (n : Fin 8) : TickClock where
  now      := (second n).wall
  stale    := second n
  siFault  := second n
  command  := (second n).wall
  follower := second n
  stop     := second n
  publish  := (second n).wall

abbrev tick (n : Fin 8) (follower : FollowerResult) : Event :=
  .tick (clock n) follower

def stamp (n : Fin 8) : TimeMsg where
  sec     := .ofNat n
  nanosec := 0

def config (mode : StartupConfig.Mode) (source : StartupConfig.TrajectorySource) : Config where
  startup    := ⟨mode, source, .always⟩
  params     := .declared 1.5
  outputMode := .ddsAndCan
  canOutput  := true
  x5h        := false
  siSession  := 1

-- The mathematical library on a straight path along an axis.
instance libm : Libm Float where
  hypot x y := if x.abs < y.abs then y.abs else x.abs
  sin x     := x
  cos _     := 1
  atan x    := x
  atan2 y _ := y

def steering (angle : Float32) : Message :=
  .steeringStatus ⟨default, angle⟩

def odometry : Message :=
  .odometry { (default : OdometryMsg) with linear := ⟨5, 0, 0⟩ }

def acceleration : Message :=
  .acceleration default

def operationMode : Message :=
  .operationModeState ⟨default, 2, true, false, true, true, true, true⟩

def reference (a xMax dt : Float) : DrivingReferenceMsg where
  sourceStamp     := stamp 1
  hasSourceStamp  := true
  session         := 7
  cycle           := 1
  valid           := true
  pathValid       := true
  pathA           := a
  pathB           := 0
  pathC           := 0
  pathXMaxM       := xMax
  horizonDtS      := dt
  speedHorizonMps := ⟨2, some [5, 5], by simp⟩

def feedback (n : Fin 8) : List Event :=
  [message n odometry, message n acceleration, message n (steering 0), message n operationMode]

-- VisionPilot's command of the cycle `k`.
def command (k : Fin 8) (steering : Float) : Message :=
  .drivingCommand ⟨stamp k, true, 7, .ofNat k, true, steering, 5, 0.5⟩

-- A stop at the second 2, at which the messages of `back` have been received again.
def stopped (back : List Message) : List Event :=
  feedback 1 ++ [message 1 (command 1 0.25), tick 1 .notReady] ++ back.map (message 2) ++
    [tick 2 .notReady]

abbrev after [Libm Float] (cfg : Config) (es : List Event) : System :=
  Transition.after (System.step cfg) .init es

end Sample
end SafetyIsland
