import SafetyIsland.Mpc.Filter
import SafetyIsland.Mpc.Resampling

namespace SafetyIsland

open MPCUtils OnReal

-- The arithmetic and the library functions of the longitudinal controller.
class CppMath (α : Type) extends Scalar α, Neg α, Libm α, Angular α, SinglePrecision α where
  fabs     : α → α
  sqrt     : α → α
  asin     : α → α
  -- `std::numeric_limits<double>::max()` and `epsilon()`
  maxValue : α
  epsilon  : α
  -- `static_cast<size_t>(x)`
  toSize   : α → ℕ
  -- `Clock::toDouble(Clock::toRosTime(time))`
  rosTime  : α → α

namespace OnReal

-- The seconds are stored in 32 bits, and a part of a nanosecond is cut off.
noncomputable def rosTimeReal (time : ℝ) : ℝ :=
  let count : ℤ := if 0 ≤ time then ⌊time * 1e9⌋ else ⌈time * 1e9⌉
  let sec := (count.tdiv Clock.nanoPerSec).bmod (2 ^ 32)
  let nanosec := (count.tmod Clock.nanoPerSec).emod (2 ^ 32)
  ((sec * Clock.nanoPerSec + nanosec : ℤ) : ℝ) / 1e9

section

local instance atLeastTwo_two : Nat.AtLeastTwo 2 := ⟨by decide⟩

noncomputable scoped instance cppMathReal : CppMath ℝ where
  toScalar   := scalarReal
  toLibm     := libmReal
  toAngular  := angularReal
  neg        := Neg.neg
  toSingle   := id
  fabs       := (|·|)
  sqrt       := Real.sqrt
  asin       := Real.arcsin
  maxValue   := 2 ^ 1024 - 2 ^ 971
  epsilon    := 2⁻¹ ^ 52
  toSize x   := ⌊x⌋.toNat
  rosTime    := rosTimeReal

end

end OnReal

@[simp] theorem ofScientific_cppMath (m : ℕ) (s : Bool) (e : ℕ) :
    @OfScientific.ofScientific ℝ (@CppMath.toScalar ℝ cppMathReal).toOfScientific m s e =
      @OfScientific.ofScientific ℝ NNRatCast.toOfScientific m s e := rfl

namespace UniverseUtils

structure PointMsg (α : Type) where
  x : α
  y : α
  z : α

structure QuaternionMsg (α : Type) where
  x : α
  y : α
  z : α
  w : α

structure PoseMsg (α : Type) where
  position    : PointMsg α
  orientation : QuaternionMsg α

structure TrajectoryPoint (α : Type) where
  pose                    : PoseMsg α
  longitudinalVelocityMps : α
  lateralVelocityMps      : α
  accelerationMps2        : α
  headingRateRps          : α

-- `Eigen::Quaterniond::slerp`
class Slerp (α : Type) where
  slerp : QuaternionMsg α → α → QuaternionMsg α → QuaternionMsg α

section

variable {α : Type} [CppMath α]

open CppMath Libm

def calcDistance2d (point1 point2 : PointMsg α) : α :=
  hypot (point1.x - point2.x) (point1.y - point2.y)

def calcSquaredDistance2d (point1 point2 : PointMsg α) : α :=
  let dx := point1.x - point2.x
  let dy := point1.y - point2.y
  dx * dx + dy * dy

def calcDistance3d (point1 point2 : PointMsg α) : α :=
  hypot (hypot (point1.x - point2.x) (point1.y - point2.y)) (point1.z - point2.z)

def getYaw (q : QuaternionMsg α) : α :=
  let sinyCosp := 2.0 * (q.w * q.z + q.x * q.y)
  let cosyCosp := 1.0 - 2.0 * (q.y * q.y + q.z * q.z)
  atan2 sinyCosp cosyCosp

def createQuaternionFromYaw (yaw : α) : QuaternionMsg α :=
  let halfYaw := yaw * 0.5
  ⟨0.0, 0.0, sin halfYaw, cos halfYaw⟩

def calcElevationAngle (pFrom pTo : PointMsg α) : α :=
  let dz := pTo.z - pFrom.z
  let dist2d := calcDistance2d pFrom pTo
  atan2 dz dist2d

def calcYawDeviation (basePose targetPose : PoseMsg α) : α :=
  let baseYaw := getYaw basePose.orientation
  let targetYaw := getYaw targetPose.orientation
  normalizeRadian (targetYaw - baseYaw)

end

end UniverseUtils
end SafetyIsland
