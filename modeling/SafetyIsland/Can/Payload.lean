import SafetyIsland.Can.UdpTunnel

namespace SafetyIsland.Can

open Bytes

def kFdControlCommandCanId : UInt32 := 0x103

-- The first `length` of the 64 data bytes are the payload.
structure CanFdFrame where
  id     : UInt32
  length : UInt8
  brs    : Bool
  data   : List UInt8
deriving DecidableEq

section

variable {α : Type}

-- The one frame of a command, which is none when the mode does not use CAN, or the error.
def CommandFields.encodeFd (scale : α → ℕ → Option Int32) (msg : CommandFields α)
    (mode : OutputMode) (sequence : UInt16) : Except String (Option CanFdFrame) :=
  match msg.encode scale mode sequence with
  | .error why => .error why
  | .ok []     => .ok none
  | .ok frames =>
    if frames.any fun frame => frame.dlc ≠ 8 ∨ frame.extended then
      .error "classic frames are not CAN-FD packable"
    else
      let copy (data : List UInt8) (frame : CanFrame × ℕ) : List UInt8 :=
        Bytes.write data (frame.2 * 8) frame.1.data.toList
      .ok (some {
        id     := kFdControlCommandCanId
        length := 24
        brs    := false
        data   := frames.zipIdx.foldl copy (.replicate 64 0) })

end

def encodeControlCommandFd (msg : ControlMsg) (mode : OutputMode) (sequence : UInt16) :
    Except String (Option CanFdFrame) :=
  (commandFields msg).encodeFd (fun value scale => scaleToI32 value (.ofNat scale)) mode sequence

def CanFrame.payload (frame : CanFrame) : List UInt8 :=
  frame.data.toList

theorem CanFrame.eq_classic {frame : CanFrame} {id : UInt32} (h : frame.header = (id, 8, false)) :
    frame = .classic id frame.data := by
  simp only [header, Prod.mk.injEq] at h
  rw [classic, ← h.1, ← h.2.1, ← h.2.2]

theorem CanFrame.empty_payload {id : UInt32} : (empty id).payload = .replicate 8 0 := rfl

theorem CanFrame.write_payload {frame : CanFrame} {offset : ℕ} {x : UInt8} :
    (frame.write offset x).payload = frame.payload.set offset x :=
  Vector.toList_setIfInBounds

@[simp]
theorem CanFrame.payload_length {frame : CanFrame} : frame.payload.length = 8 := by
  simp [payload]

namespace CommandFields

variable {α : Type} {scale : α → ℕ → Option Int32} {msg : CommandFields α} {mode : OutputMode}
  {sequence : UInt16} {frames : List CanFrame}

def flags (msg : CommandFields α) : UInt8 :=
  validityFlags msg.steeringRateDefined msg.accelerationDefined msg.jerkDefined

-- The scaled numbers of a command.
structure Scaled where
  angle        : Int32
  rate         : Int32
  velocity     : Int32
  acceleration : Int32

-- What the frames of a command are made of.
structure Encoded (scale : α → ℕ → Option Int32) (msg : CommandFields α) (mode : OutputMode)
    (sequence : UInt16) (scaled : Scaled) (lateral longitudinal status : CanFrame) : Prop where
  angle        : scale msg.steeringTireAngle 1000000 = some scaled.angle
  rate         : scale msg.steeringTireRotationRate 1000000 = some scaled.rate
  velocity     : scale msg.velocity 1000 = some scaled.velocity
  acceleration : scale msg.acceleration 1000 = some scaled.acceleration
  lateral_eq      : lateral = .classic kLateralCommandCanId lateral.data
  longitudinal_eq : longitudinal = .classic kLongitudinalCommandCanId longitudinal.data
  status_eq       : status = .classic kCommandStatusCanId status.data
  lateral_data    : lateral.payload =
    digits 4 scaled.angle.toUInt32.toNat ++ digits 4 scaled.rate.toUInt32.toNat
  longitudinal_data : longitudinal.payload =
    digits 4 scaled.velocity.toUInt32.toNat ++ digits 4 scaled.acceleration.toUInt32.toNat
  status_data     : status.payload = [mode.toUInt8, msg.flags] ++ digits 2 sequence.toNat ++
    digits 4 (timestampMsModulo msg.stamp).toNat

theorem writeI32Le_payload {id : UInt32} {a b : Int32} :
    (((CanFrame.empty id).writeI32Le 0 a).writeI32Le 4 b).payload =
      digits 4 a.toUInt32.toNat ++ digits 4 b.toUInt32.toNat := by
  simp only [CanFrame.writeI32Le, CanFrame.writeU32Le, CanFrame.write_payload,
    CanFrame.empty_payload, digits_uint32]
  rfl

theorem status_payload {id stamp : UInt32} {a b : UInt8} {sequence : UInt16} :
    (((((CanFrame.empty id).write 0 a).write 1 b).writeU16Le 2 sequence).writeU32Le 4 stamp).payload =
      [a, b] ++ digits 2 sequence.toNat ++ digits 4 stamp.toNat := by
  simp only [CanFrame.writeU16Le, CanFrame.writeU32Le, CanFrame.write_payload,
    CanFrame.empty_payload, digits_uint32, digits_uint16]
  rfl

theorem encode_ok (hm : mode.usesCan = true) (h : msg.encode scale mode sequence = .ok frames) :
    ∃ scaled lateral longitudinal status, frames = [lateral, longitudinal, status] ∧
      Encoded scale msg mode sequence scaled lateral longitudinal status := by
  have h₀ := h
  simp only [encode, hm, Bool.not_true, Bool.false_eq_true, ↓reduceIte] at h
  split at h
  case h_2 => cases h
  case h_1 angle hangle =>
    split at h
    case h_2 => cases h
    case h_1 rate hrate =>
      split at h
      case h_2 => cases h
      case h_1 velocity hvelocity =>
        split at h
        case h_2 => cases h
        case h_1 acceleration hacceleration =>
          cases h
          refine ⟨⟨angle, rate, velocity, acceleration⟩, _, _, _, rfl, ?_⟩
          obtain ⟨hlateral, hlongitudinal, hstatus⟩ := encode_header h₀
          exact {
            angle             := hangle
            rate              := hrate
            velocity          := hvelocity
            acceleration      := hacceleration
            lateral_eq        := CanFrame.eq_classic hlateral
            longitudinal_eq   := CanFrame.eq_classic hlongitudinal
            status_eq         := CanFrame.eq_classic hstatus
            lateral_data      := writeI32Le_payload
            longitudinal_data := writeI32Le_payload
            status_data       := status_payload }

variable {scaled : Scaled} {lateral longitudinal status : CanFrame}

theorem Encoded.encodeFd (he : Encoded scale msg mode sequence scaled lateral longitudinal status)
    (h : msg.encode scale mode sequence = .ok [lateral, longitudinal, status]) :
    ∃ frame, msg.encodeFd scale mode sequence = .ok (some frame) ∧
      frame.id = kFdControlCommandCanId ∧ frame.length = 24 ∧
      frame.data.take 24 = lateral.payload ++ longitudinal.payload ++ status.payload := by
  have hp : ([lateral, longitudinal, status].any fun frame => frame.dlc ≠ 8 ∨ frame.extended) =
      false := by
    rw [he.lateral_eq, he.longitudinal_eq, he.status_eq]
    rfl
  simp only [CommandFields.encodeFd, h, hp, Bool.false_eq_true, if_false]
  refine ⟨_, rfl, rfl, rfl, ?_⟩
  simp only [List.zipIdx_cons, List.zipIdx_nil, List.foldl_cons, List.foldl_nil]
  rw [← List.nil_append (List.replicate 64 _), write_fill (by simp) (k := 56) (by simp),
    write_fill (by simp) (k := 48) (by simp), write_fill (by simp) (k := 40) (by simp)]
  exact List.take_left' (by simp)

end CommandFields

section

variable {data : List UInt8} {offset : ℕ}

theorem fromBytes_eq : fromBytes data = value data := by
  induction data
  case nil => rfl
  case cons ih => rw [fromBytes, value_cons, ih]

theorem i32Le_digits {x : Int32} (before rest : List UInt8) (h : before.length = offset) :
    i32Le (before ++ (digits 4 x.toUInt32.toNat ++ rest)) offset = x.toInt := by
  have hx : x.toInt = x.toBitVec.toInt := rfl
  have hn : x.toUInt32.toNat = x.toBitVec.toNat := rfl
  rw [i32Le, List.drop_left' h, List.take_left' digits_length, fromBytes_eq,
    value_digits_of_lt x.toUInt32.toNat_lt, hx, BitVec.toInt_eq_toNat_cond, hn]
  split_ifs <;> omega

theorem u16Le_digits {x : UInt16} (before rest : List UInt8) (h : before.length = offset) :
    u16Le (before ++ (digits 2 x.toNat ++ rest)) offset = x.toNat := by
  rw [u16Le, List.drop_left' h, List.take_left' digits_length, fromBytes_eq,
    value_digits_of_lt x.toNat_lt]

end

end SafetyIsland.Can
