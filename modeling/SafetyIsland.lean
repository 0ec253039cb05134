import SafetyIsland.Ieee.Rounding
import SafetyIsland.Ieee.Unpacked
import SafetyIsland.Ieee.Packed
import SafetyIsland.Ieee.Arith
import SafetyIsland.Ieee.Float
import SafetyIsland.Transition.Run
import SafetyIsland.Clock
import SafetyIsland.Messages
import SafetyIsland.StartupConfig
import SafetyIsland.SiChannel
import SafetyIsland.Supervision.Latch
import SafetyIsland.Ring.Recent
import SafetyIsland.Bytes.Basic
import SafetyIsland.Bytes.Struct
import SafetyIsland.Supervision.Identity
import SafetyIsland.Supervision.Stream
import SafetyIsland.Reference.Scalar
import SafetyIsland.Reference.Exact
import SafetyIsland.Reference.Real
import SafetyIsland.Reference.Selection
import SafetyIsland.Reference.Schedule
import SafetyIsland.Reference.Conversion
import SafetyIsland.Timer
import SafetyIsland.Reference.Convert
import SafetyIsland.Reference.EgoHistory
import SafetyIsland.Signal.Recursive
import SafetyIsland.Mpc.Filter
import SafetyIsland.Mpc.Saturation
import SafetyIsland.Mpc.Cost
import SafetyIsland.Mpc.Convergence
import SafetyIsland.Can.Encoder
import SafetyIsland.Can.Decoder
import SafetyIsland.Can.Bus
import SafetyIsland.Can.UdpTunnel
import SafetyIsland.Can.Datagram
import SafetyIsland.Can.Payload
import SafetyIsland.Can.RoundTrip
import SafetyIsland.Controller.State
import SafetyIsland.Controller.Callbacks
import SafetyIsland.Controller.Tick
import SafetyIsland.Controller.Step
import SafetyIsland.Controller.Ingress
import SafetyIsland.Controller.Cycle
import SafetyIsland.Controller.Observed
import SafetyIsland.Controller.Theorems.Gate
import SafetyIsland.Controller.Theorems.Ingestion
import SafetyIsland.Controller.Latching
import SafetyIsland.Controller.Theorems.Episode
import SafetyIsland.Controller.Theorems.Output
import SafetyIsland.Controller.Theorems.Press
import SafetyIsland.Controller.Theorems.Recovery
import SafetyIsland.Controller.Theorems.FaultInput
import SafetyIsland.Can.ExactlyOnce
import SafetyIsland.Can.Tunnel
import SafetyIsland.Can.Uniqueness
import SafetyIsland.Bytes.Memory
import SafetyIsland.Emutls.Access
import SafetyIsland.Emutls.Cleanup
import SafetyIsland.Emutls.ThreadLocal
import SafetyIsland.Emutls.Register
import SafetyIsland.Can.Bridge
import SafetyIsland.Can.ZephyrSend
import SafetyIsland.Controller.Theorems.Ramp
import SafetyIsland.Stamp
import SafetyIsland.Mpc.TrajectoryBuffer
import SafetyIsland.Controller.Theorems.Trajectory
import SafetyIsland.Bytes.Heap
import SafetyIsland.OperatorNew
import SafetyIsland.Mpc.Resampling
import SafetyIsland.Longitudinal.Envelope
import SafetyIsland.Longitudinal.Braking
import SafetyIsland.Mpc.Solver
import SafetyIsland.Transition.Ramp
import SafetyIsland.Longitudinal.Departure
import SafetyIsland.Longitudinal.Standing
import SafetyIsland.Quadratic.Minimum
import SafetyIsland.Linear.Trapezoidal
import SafetyIsland.Mpc.Tracking
import SafetyIsland.Pthread.Mutex
import SafetyIsland.Pthread.Thread
import SafetyIsland.Mpc.Timing
import SafetyIsland.Mpc.Preparation
import SafetyIsland.Mpc.ReferenceTrajectory
import SafetyIsland.Mpc.PathShape
import SafetyIsland.Mpc.Calculate
import SafetyIsland.Controller.Theorems.Boot
import SafetyIsland.Can.Range
import SafetyIsland.Controller.Theorems.Sendable
