import SafetyIsland.Messages

namespace SafetyIsland.Supervision

open Ieee

-- The session of a boot: the milliseconds of the clock, their low 31 bits, and never 0.
def siSessionFromClock (nowSeconds : Float) : UInt32 :=
  let ms : UInt64 := .ofInt (truncate (nowSeconds * 1000.0))
  let session := (ms &&& 0x7fffffff).toUInt32
  if session = 0 then 1 else session

-- The source counts faults in a `uint32_t`. Here the count is kept whole, and the word that is
-- published is its value modulo 2 ^ 32.
structure SupervisionState where
  latched : Bool
  faultId : ℕ
  reason  : String
deriving DecidableEq

namespace SupervisionState

def init : SupervisionState where
  latched := false
  faultId := 0
  reason  := ""

def latch (s : SupervisionState) (why : String) : SupervisionState where
  latched := true
  faultId := if s.latched then s.faultId else s.faultId + 1
  reason  := why

-- The new state, the request that is left, and whether this tick must publish SI_STOP.
def stopThisTick (s : SupervisionState) (reenableRequested allSourcesFresh : Bool) :
    SupervisionState × Bool × Bool :=
  if !s.latched then (s, reenableRequested, false)
  else if reenableRequested && allSourcesFresh then
    ({ s with latched := false, reason := "" }, false, false)
  else (s, reenableRequested, true)

@[simp]
theorem latch_latched (s : SupervisionState) (why : String) : (s.latch why).latched = true :=
  rfl

@[simp]
theorem latch_reason (s : SupervisionState) (why : String) : (s.latch why).reason = why :=
  rfl

theorem stopThisTick_of_latched {s : SupervisionState} (h : s.latched = true) (r f : Bool) :
    s.stopThisTick r f =
      if r && f then ({ s with latched := false, reason := "" }, false, false)
      else (s, r, true) := by
  simp [stopThisTick, h]

end SupervisionState

def stopRampVelocity (v0Mps decelMps2 elapsedS maxV0Mps : Float) : Float :=
  if ¬v0Mps ≤ maxV0Mps then 0
  else
    let v := v0Mps - decelMps2 * elapsedS
    if v > 0 then v else 0

structure ReenableRequest where
  pending     : Bool
  requestedAt : Float
deriving DecidableEq

namespace ReenableRequest

def init : ReenableRequest where
  pending     := false
  requestedAt := 0

def request (now : Float) : ReenableRequest where
  pending     := true
  requestedAt := now

def clear (r : ReenableRequest) : ReenableRequest :=
  { r with pending := false }

-- A pending request that is older than the window.
def expired (r : ReenableRequest) (now windowS : Float) : Bool :=
  r.pending && now - r.requestedAt > windowS

def expireIfOld (r : ReenableRequest) (now windowS : Float) : ReenableRequest :=
  if r.expired now windowS then r.clear else r

@[simp]
theorem clear_pending (r : ReenableRequest) : r.clear.pending = false :=
  rfl

theorem expireIfOld_pending {r : ReenableRequest} {now windowS : Float} :
    (r.expireIfOld now windowS).pending = true ↔
      r.pending = true ∧ ¬now - r.requestedAt > windowS := by
  unfold expireIfOld expired
  cases hp : r.pending <;> by_cases hw : now - r.requestedAt > windowS <;> simp [hp, hw]

theorem expireIfOld_of_pending {r : ReenableRequest} {now windowS : Float}
    (h : (r.expireIfOld now windowS).pending = true) : r.expireIfOld now windowS = r := by
  have ⟨_, hw⟩ := expireIfOld_pending.mp h
  simp [expireIfOld, expired, hw]

end ReenableRequest

-- A source that was never seen has the arrival time -1.
structure SourceWatch where
  lastArrival : Float
deriving DecidableEq

namespace SourceWatch

def init : SourceWatch where
  lastArrival := -1

def note (now : Float) : SourceWatch where
  lastArrival := now

def ever (w : SourceWatch) : Bool :=
  w.lastArrival ≥ 0

def ageSec (w : SourceWatch) (now : Float) : Float :=
  if w.lastArrival ≥ 0 then now - w.lastArrival else -1

def stale (w : SourceWatch) (now timeoutSec : Float) : Bool :=
  w.lastArrival ≥ 0 && now - w.lastArrival > timeoutSec

theorem ever_note (t : WallTime) : (note t.seconds).ever = true :=
  decide_eq_true t.nonneg

theorem not_stale_iff {w : SourceWatch} {now timeoutSec : Float} (h : w.ever = true) :
    w.stale now timeoutSec = false ↔ ¬w.ageSec now > timeoutSec := by
  have h₀ : w.lastArrival ≥ 0 := of_decide_eq_true h
  simp [stale, ageSec, h₀]

end SourceWatch

structure StopRamp where
  v0Mps     : Float
  startedAt : SteadyTime
deriving DecidableEq

namespace StopRamp

def init : StopRamp where
  v0Mps     := 0
  startedAt := 0

def start (egoVelocityMps : Float) (odometry : SourceWatch) (arrivalNow odometryTimeoutS : Float)
    (monotonicNow : SteadyTime) : StopRamp where
  v0Mps :=
    if odometry.ever && !odometry.stale arrivalNow odometryTimeoutS then egoVelocityMps else 0
  startedAt := monotonicNow

def velocity (r : StopRamp) (decelMps2 maxV0Mps : Float) (now : SteadyTime) : Float :=
  stopRampVelocity r.v0Mps decelMps2 (Clock.durationSeconds r.startedAt now) maxV0Mps

end StopRamp

structure Envelope where
  maxSteeringRad    : Float
  maxAbsVelocityMps : Float
  maxAbsAccelMps2   : Float

-- A comparison with a NaN is false, so a NaN violates every bound.
def envelopeViolation (steeringRad velocityMps accelMps2 : Float) (limits : Envelope) :
    Option String :=
  if ¬steeringRad.abs ≤ limits.maxSteeringRad then some "steering out of range"
  else if ¬velocityMps.abs ≤ limits.maxAbsVelocityMps then some "speed out of range"
  else if ¬accelMps2.abs ≤ limits.maxAbsAccelMps2 then some "accel out of range"
  else none

theorem envelopeViolation_eq_none {s v a : Float} {limits : Envelope} :
    envelopeViolation s v a limits = none ↔
      s.abs ≤ limits.maxSteeringRad ∧ v.abs ≤ limits.maxAbsVelocityMps ∧
      a.abs ≤ limits.maxAbsAccelMps2 := by
  unfold envelopeViolation
  split_ifs <;> simp_all

inductive Decision
  | normal
  | siStop
  | hold
deriving DecidableEq

def Decision.toUInt8 : Decision → UInt8
  | normal => 0
  | siStop => 1
  | hold   => 2

inductive Mode
  | siControl
  | vpControl
deriving DecidableEq

def Mode.toUInt8 : Mode → UInt8
  | siControl => 0
  | vpControl => 1

inductive SelectedSource
  | follower
  | vpCommand
deriving DecidableEq

def SelectedSource.toUInt8 : SelectedSource → UInt8
  | follower  => 0
  | vpCommand => 1

-- The stop that keeps the last known steering and demands a standstill.
def stopControl (lastApproved : Option ControlMsg) (stopAccelMps2 : Float32) : ControlMsg :=
  let out : ControlMsg := default
  { out with
    lateral := lastApproved.elim out.lateral (·.lateral)
    longitudinal := { out.longitudinal with
      velocity              := 0
      acceleration          := -stopAccelMps2
      isDefinedAcceleration := true } }

end SafetyIsland.Supervision
