import SafetyIsland.Can.Encoder

namespace SafetyIsland.Can

open Ieee

def lateralId : UInt32 := 0x100
def longitudinalId : UInt32 := 0x101
def statusId : UInt32 := 0x102
def fdCommandId : UInt32 := 0x103
def fdPayloadLength : ℕ := 24

inductive DecoderEvent
  | ignored
  | stored
  | accepted
  | rejected
  | safeStop
deriving DecidableEq

-- A decoded command whose numbers are of type `α`, which are doubles in the source.
structure DecodedControlCommand (α : Type) where
  steeringTireAngle        : α
  steeringTireRotationRate : α
  steeringRateDefined      : Bool
  velocity                 : α
  acceleration             : α
  accelerationDefined      : Bool
  jerkDefined              : Bool
  sequence                 : ℕ
  outputMode               : UInt8
deriving DecidableEq

def fromBytes : List UInt8 → ℕ
  | []      => 0
  | b :: bs => b.toNat + 256 * fromBytes bs

def i32Le (data : List UInt8) (offset : ℕ) : ℤ :=
  let raw := fromBytes ((data.drop offset).take 4)
  if raw ≥ 2 ^ 31 then raw - 2 ^ 32 else raw

def u16Le (data : List UInt8) (offset : ℕ) : ℕ :=
  fromBytes ((data.drop offset).take 2)

def seqDelta (sequence expected : ℕ) : ℤ :=
  (sequence - expected + 32768) % 65536 - 32768

instance intCastFloat : IntCast Float where
  intCast := Float.ofInt

section

variable {α : Type} [IntCast α] [Div α]

namespace DecodedControlCommand

def init : DecodedControlCommand α where
  steeringTireAngle        := (0 : ℤ)
  steeringTireRotationRate := (0 : ℤ)
  steeringRateDefined      := false
  velocity                 := (0 : ℤ)
  acceleration             := (0 : ℤ)
  accelerationDefined      := false
  jerkDefined              := false
  sequence                 := 0
  outputMode               := 0

def assemble (lateral longitudinal status : List UInt8) : DecodedControlCommand α where
  steeringTireAngle        := (i32Le lateral 0 : α) / (1000000 : ℤ)
  steeringTireRotationRate := (i32Le lateral 4 : α) / (1000000 : ℤ)
  velocity                 := (i32Le longitudinal 0 : α) / (1000 : ℤ)
  acceleration             := (i32Le longitudinal 4 : α) / (1000 : ℤ)
  outputMode               := status.getD 0 0
  steeringRateDefined      := status.getD 1 0 &&& 0x01 != 0
  accelerationDefined      := status.getD 1 0 &&& 0x02 != 0
  jerkDefined              := status.getD 1 0 &&& 0x04 != 0
  sequence                 := u16Le status 2

end DecodedControlCommand

-- The pending payloads, the expected sequence and the anchor of the watchdog are absent where the
-- source clears the flag beside them.
structure ControlCommandDecoder (α : Type) where
  lateral      : Option (List UInt8)
  longitudinal : Option (List UInt8)
  command      : DecodedControlCommand α
  hasCommand   : Bool
  inSafeStop   : Bool
  expected     : Option ℕ
  anchor       : Option Float
deriving DecidableEq

namespace ControlCommandDecoder

def init : ControlCommandDecoder α where
  lateral      := none
  longitudinal := none
  command      := .init
  hasCommand   := false
  inSafeStop   := false
  expected     := none
  anchor       := none

def noteTime (d : ControlCommandDecoder α) (now : Float) : ControlCommandDecoder α :=
  { d with anchor := d.anchor <|> some now }

def clearPending (d : ControlCommandDecoder α) : ControlCommandDecoder α :=
  { d with lateral := none, longitudinal := none }

def accept (d : ControlCommandDecoder α) (lateral longitudinal status : List UInt8) (now : Float) :
    ControlCommandDecoder α :=
  let d := { d with
    command    := .assemble lateral longitudinal status
    hasCommand := true
    inSafeStop := false
    expected   := some ((u16Le status 2 + 1) % 65536)
    anchor     := some now }
  d.clearPending

def commit (d : ControlCommandDecoder α) (payload : List UInt8) (now : Float) :
    ControlCommandDecoder α × DecoderEvent :=
  match d.lateral, d.longitudinal with
  | some lateral, some longitudinal =>
    if d.expected.any (seqDelta (u16Le payload 2) · < 0) then (d.clearPending, .rejected)
    else (d.accept lateral longitudinal payload now, .accepted)
  | _, _ => (d.clearPending, .rejected)

def feed (d : ControlCommandDecoder α) (canId : UInt32) (data : List UInt8) (dlc : ℕ)
    (extended : Bool) (now : Float) : ControlCommandDecoder α × DecoderEvent :=
  let d := d.noteTime now
  if extended ∨ dlc ≠ 8 ∨ data.length < 8 then (d, .ignored)
  else
    let payload := data.take 8
    if canId = lateralId then ({ d with lateral := some payload }, .stored)
    else if canId = longitudinalId then ({ d with longitudinal := some payload }, .stored)
    else if canId ≠ statusId then (d, .ignored)
    else d.commit payload now

def feedFd (d : ControlCommandDecoder α) (canId : UInt32) (data : List UInt8) (length : ℕ)
    (extended : Bool) (now : Float) : ControlCommandDecoder α × DecoderEvent :=
  let d := d.noteTime now
  if extended ∨ canId ≠ fdCommandId ∨ length ≠ fdPayloadLength ∨ data.length < fdPayloadLength then
    (d, .ignored)
  else
    let payload := data.take fdPayloadLength
    let d := (d.feed lateralId (payload.take 8) 8 false now).1
    let d := (d.feed longitudinalId ((payload.drop 8).take 8) 8 false now).1
    d.feed statusId ((payload.drop 16).take 8) 8 false now

-- The state after the watchdog expires.
def safeStop (d : ControlCommandDecoder α) : ControlCommandDecoder α :=
  let d := { d with inSafeStop := true, expected := none }
  d.clearPending

def pollWatchdog (d : ControlCommandDecoder α) (now timeoutSec : Float) :
    ControlCommandDecoder α × DecoderEvent :=
  let d := d.noteTime now
  if d.inSafeStop then (d, .safeStop)
  else
    match d.anchor with
    | none        => (d, .ignored)
    | some anchor => if now - anchor ≤ timeoutSec then (d, .ignored) else (d.safeStop, .safeStop)

variable {d : ControlCommandDecoder α} {payload : List UInt8} {now timeoutSec : Float}

omit [IntCast α] [Div α] in
@[simp]
theorem noteTime_noteTime : (d.noteTime now).noteTime now = d.noteTime now := by
  cases h : d.anchor <;> simp [noteTime, h]

theorem feed_lateral (hp : payload.length = 8) : d.feed lateralId payload 8 false now =
    ({ d.noteTime now with lateral := some payload }, .stored) := by
  simp [feed, hp, List.take_of_length_le hp.le]

theorem feed_longitudinal (hp : payload.length = 8) : d.feed longitudinalId payload 8 false now =
    ({ d.noteTime now with longitudinal := some payload }, .stored) := by
  simp [feed, hp, List.take_of_length_le hp.le, lateralId, longitudinalId]

theorem feed_status (hp : payload.length = 8) : d.feed statusId payload 8 false now =
    (d.noteTime now).commit payload now := by
  simp [feed, hp, List.take_of_length_le hp.le, lateralId, longitudinalId, statusId]

-- The sequence of a status payload is not behind the expected one.
def Fresh (d : ControlCommandDecoder α) (payload : List UInt8) : Prop :=
  ∀ e ∈ d.expected, 0 ≤ seqDelta (u16Le payload 2) e

-- What a commit does: it takes both pending payloads, or drops whatever is pending.
inductive Commits (d : ControlCommandDecoder α) (payload : List UInt8) (now : Float) :
    ControlCommandDecoder α × DecoderEvent → Prop
  | accepts {lateral longitudinal : List UInt8} :
    d.lateral = some lateral → d.longitudinal = some longitudinal → d.Fresh payload →
    Commits d payload now (d.accept lateral longitudinal payload now, .accepted)
  | rejects :
    (d.lateral.isSome = true → d.longitudinal.isSome = true → ¬d.Fresh payload) →
    Commits d payload now (d.clearPending, .rejected)

theorem commits : Commits d payload now (d.commit payload now) := by
  have hf : d.expected.any (seqDelta (u16Le payload 2) · < 0) = true ↔ ¬d.Fresh payload := by
    cases h : d.expected <;> simp [Fresh, h]
  unfold commit
  split
  case h_1 hl hg =>
    split
    case isTrue h  => exact .rejects fun _ _ => hf.mp h
    case isFalse h => exact .accepts hl hg (not_not.mp (mt hf.mpr h))
  case h_2 hn =>
    refine .rejects fun hl hg => ?_
    have ⟨l, hl⟩ := Option.isSome_iff_exists.mp hl
    have ⟨g, hg⟩ := Option.isSome_iff_exists.mp hg
    exact absurd hg (hn l g hl)

-- What a poll does: it only reports, or it makes the transition to the safe stop.
inductive Polls (d : ControlCommandDecoder α) (now timeoutSec : Float) :
    ControlCommandDecoder α × DecoderEvent → Prop
  | reports {e : DecoderEvent} : e ≠ .accepted → Polls d now timeoutSec (d.noteTime now, e)
  | stops : d.inSafeStop = false → Polls d now timeoutSec ((d.noteTime now).safeStop, .safeStop)

omit [IntCast α] [Div α] in
theorem polls : Polls d now timeoutSec (d.pollWatchdog now timeoutSec) := by
  simp only [pollWatchdog]
  split
  case isTrue => exact .reports nofun
  case isFalse hs =>
    split
    case h_1 => exact .reports nofun
    case h_2 =>
      split
      case isTrue  => exact .reports nofun
      case isFalse => exact .stops (eq_false_of_ne_true hs)

end ControlCommandDecoder

end
end SafetyIsland.Can
