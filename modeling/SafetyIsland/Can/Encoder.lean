import SafetyIsland.Messages

namespace SafetyIsland.Can

open Ieee

inductive OutputMode
  | ddsOnly
  | canOnly
  | ddsAndCan
deriving DecidableEq

namespace OutputMode

def toUInt8 : OutputMode → UInt8
  | ddsOnly   => 0
  | canOnly   => 1
  | ddsAndCan => 2

def usesDds (mode : OutputMode) : Bool :=
  mode = ddsOnly || mode = ddsAndCan

def usesCan (mode : OutputMode) : Bool :=
  mode = canOnly || mode = ddsAndCan

end OutputMode

structure CanFrame where
  id       : UInt32
  dlc      : UInt8
  extended : Bool
  data     : Vector UInt8 8
deriving DecidableEq

def kLateralCommandCanId : UInt32 := 0x100
def kLongitudinalCommandCanId : UInt32 := 0x101
def kCommandStatusCanId : UInt32 := 0x102

namespace CanFrame

def empty (id : UInt32) : CanFrame where
  id       := id
  dlc      := 8
  extended := false
  data     := .replicate 8 0

def write (frame : CanFrame) (offset : ℕ) (value : UInt8) : CanFrame :=
  { frame with data := frame.data.setIfInBounds offset value }

def writeU32Le (frame : CanFrame) (offset : ℕ) (raw : UInt32) : CanFrame :=
  frame
    |>.write offset raw.toUInt8
    |>.write (offset + 1) (raw >>> 8).toUInt8
    |>.write (offset + 2) (raw >>> 16).toUInt8
    |>.write (offset + 3) (raw >>> 24).toUInt8

def writeI32Le (frame : CanFrame) (offset : ℕ) (value : Int32) : CanFrame :=
  frame.writeU32Le offset value.toUInt32

def writeU16Le (frame : CanFrame) (offset : ℕ) (value : UInt16) : CanFrame :=
  frame
    |>.write offset value.toUInt8
    |>.write (offset + 1) (value >>> 8).toUInt8

-- Everything of a frame but its data.
def header (frame : CanFrame) : UInt32 × UInt8 × Bool :=
  (frame.id, frame.dlc, frame.extended)

variable {frame : CanFrame} {offset : ℕ}

@[simp]
theorem empty_header {id : UInt32} : (empty id).header = (id, 8, false) := rfl

@[simp]
theorem write_header {value : UInt8} : (frame.write offset value).header = frame.header := rfl

@[simp]
theorem writeU32Le_header {raw : UInt32} :
    (frame.writeU32Le offset raw).header = frame.header := by
  simp only [writeU32Le, write_header]

@[simp]
theorem writeI32Le_header {value : Int32} :
    (frame.writeI32Le offset value).header = frame.header := by
  simp only [writeI32Le, writeU32Le_header]

@[simp]
theorem writeU16Le_header {value : UInt16} :
    (frame.writeU16Le offset value).header = frame.header := by
  simp only [writeU16Le, write_header]

end CanFrame

def minI32 : Float := -2147483648
def maxI32 : Float := 2147483647

def scaleToI32 (value : Float32) (scale : Float) : Option Int32 :=
  if ¬value.isFinite then none
  else
    let scaled := widen value * scale
    if scaled < minI32 - 0.5 ∨ scaled > maxI32 + 0.5 then none
    else
      let rounded := truncate (if scaled ≥ 0 then scaled + 0.5 else scaled - 0.5)
      if rounded < -2147483648 ∨ rounded > 2147483647 then none
      else some (.ofInt rounded)

def timestampMsModulo (stamp : TimeMsg) : UInt32 :=
  let secMs := stamp.sec.toInt64.toUInt64 * 1000
  let nsecMs := stamp.nanosec.toUInt64 / 1000000
  (secMs + nsecMs).toUInt32

def validityFlags (steeringRateDefined accelerationDefined jerkDefined : Bool) : UInt8 :=
  (if steeringRateDefined then 0x01 else 0x00) |||
  (if accelerationDefined then 0x02 else 0x00) |||
  (if jerkDefined then 0x04 else 0x00) ||| 0x08

-- What the encoder reads of a command whose numbers are of type `α`.
structure CommandFields (α : Type) where
  stamp                    : TimeMsg
  steeringTireAngle        : α
  steeringTireRotationRate : α
  steeringRateDefined      : Bool
  velocity                 : α
  acceleration             : α
  accelerationDefined      : Bool
  jerkDefined              : Bool

-- The frames of a command, which are none when the mode does not use CAN, or the error. The scaling
-- to integers is that of the numbers.
def CommandFields.encode {α : Type} (scale : α → ℕ → Option Int32) (msg : CommandFields α)
    (mode : OutputMode) (sequence : UInt16) : Except String (List CanFrame) := do
  if !mode.usesCan then return []
  let some steeringAngle := scale msg.steeringTireAngle 1000000
    | .error "invalid steering_tire_angle"
  let some steeringRate := scale msg.steeringTireRotationRate 1000000
    | .error "invalid steering_tire_rotation_rate"
  let some velocity := scale msg.velocity 1000
    | .error "invalid velocity"
  let some acceleration := scale msg.acceleration 1000
    | .error "invalid acceleration"
  let lateral := CanFrame.empty kLateralCommandCanId
    |>.writeI32Le 0 steeringAngle
    |>.writeI32Le 4 steeringRate
  let longitudinal := CanFrame.empty kLongitudinalCommandCanId
    |>.writeI32Le 0 velocity
    |>.writeI32Le 4 acceleration
  let status := CanFrame.empty kCommandStatusCanId
    |>.write 0 mode.toUInt8
    |>.write 1 (validityFlags msg.steeringRateDefined msg.accelerationDefined msg.jerkDefined)
    |>.writeU16Le 2 sequence
    |>.writeU32Le 4 (timestampMsModulo msg.stamp)
  return [lateral, longitudinal, status]

def commandFields (msg : ControlMsg) : CommandFields Float32 where
  stamp                    := msg.stamp
  steeringTireAngle        := msg.lateral.steeringTireAngle
  steeringTireRotationRate := msg.lateral.steeringTireRotationRate
  steeringRateDefined      := msg.lateral.isDefinedSteeringTireRotationRate
  velocity                 := msg.longitudinal.velocity
  acceleration             := msg.longitudinal.acceleration
  accelerationDefined      := msg.longitudinal.isDefinedAcceleration
  jerkDefined              := msg.longitudinal.isDefinedJerk

def encodeControlCommand (msg : ControlMsg) (mode : OutputMode) (sequence : UInt16) :
    Except String (List CanFrame) :=
  (commandFields msg).encode (fun value scale => scaleToI32 value (.ofNat scale)) mode sequence

namespace CommandFields

variable {α : Type} {scale : α → ℕ → Option Int32} {msg : CommandFields α} {mode : OutputMode}
  {sequence : UInt16}

theorem encode_isOk (h : mode.usesCan = true) :
    (msg.encode scale mode sequence).isOk = true ↔
      (scale msg.steeringTireAngle 1000000).isSome = true ∧
      (scale msg.steeringTireRotationRate 1000000).isSome = true ∧
      (scale msg.velocity 1000).isSome = true ∧
      (scale msg.acceleration 1000).isSome = true := by
  simp only [encode, h, Bool.not_true, Bool.false_eq_true, ↓reduceIte]
  cases scale msg.steeringTireAngle 1000000
  case none => simp [Except.isOk, Except.toBool]
  cases scale msg.steeringTireRotationRate 1000000
  case none => simp [Except.isOk, Except.toBool]
  cases scale msg.velocity 1000
  case none => simp [Except.isOk, Except.toBool]
  cases scale msg.acceleration 1000
  case none => simp [Except.isOk, Except.toBool]
  simp [Except.isOk, Except.toBool, pure, Except.pure]

theorem encode_header {lateral longitudinal status : CanFrame}
    (h : msg.encode scale mode sequence = .ok [lateral, longitudinal, status]) :
    lateral.header = (kLateralCommandCanId, 8, false) ∧
    longitudinal.header = (kLongitudinalCommandCanId, 8, false) ∧
    status.header = (kCommandStatusCanId, 8, false) := by
  simp only [encode] at h
  split at h
  case isTrue => cases h
  split at h
  case h_2 => cases h
  split at h
  case h_2 => cases h
  split at h
  case h_2 => cases h
  split at h
  case h_2 => cases h
  simp only [pure, Except.pure, Except.ok.injEq, List.cons.injEq, and_true] at h
  have ⟨h₁, h₂, h₃⟩ := h
  simp [← h₁, ← h₂, ← h₃]

end CommandFields
end SafetyIsland.Can
