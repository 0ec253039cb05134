import SafetyIsland.Reference.Exact
import SafetyIsland.Signal.Recursive
import SafetyIsland.Supervision.Latch

namespace SafetyIsland

-- `static_cast<float>`, as a value of the wider type.
class SinglePrecision (α : Type) where
  toSingle : α → α

instance singleFloat : SinglePrecision Float where
  toSingle x := Ieee.widen (Ieee.narrow x)

instance singleExact : SinglePrecision Exact where
  toSingle := id

namespace Mpc

section

variable {α : Type} [Scalar α] [Neg α]

structure Libc (α : Type) where
  tan  : α → α
  sqrt : α → α

def pi : α := 3.14159265358979323846

structure Butterworth2dFilter (α : Type) where
  y1 : α
  y2 : α
  u1 : α
  u2 : α
  a1 : α
  a2 : α
  b0 : α
  b1 : α
  b2 : α

namespace Butterworth2dFilter

def initialized (libc : Libc α) (dt fCutoffHz : α) : Butterworth2dFilter α :=
  let fSamplingHz := (1.0 : α) / dt
  let xi := (1.0 : α) / libc.tan (pi * fCutoffHz / fSamplingHz)
  let xi2 := xi * xi
  let q := libc.sqrt 2.0
  let b0 := 1.0 / (1.0 + q * xi + xi2)
  { y1 := 0.0
    y2 := 0.0
    u1 := 0.0
    u2 := 0.0
    a1 := 2.0 * (xi2 - 1.0) * b0
    a2 := -(1.0 - q * xi + xi2) * b0
    b0 := b0
    b1 := 2.0 * b0
    b2 := b0 }

def output (f : Butterworth2dFilter α) (u0 : α) : α :=
  f.b2 * f.u2 + f.b1 * f.u1 + f.b0 * u0 + f.a2 * f.y2 + f.a1 * f.y1

def filter (f : Butterworth2dFilter α) (u0 : α) : α × Butterworth2dFilter α :=
  let y0 := f.output u0
  (y0, { f with y2 := f.y1, y1 := y0, u2 := f.u1, u1 := u0 })

end Butterworth2dFilter

-- What the saturation and the filter of `MPC::calculateMPC` read and write.
structure Steering (α : Type) where
  steerLim         : α
  lpfSteeringCmd   : Butterworth2dFilter α
  inputBuffer      : List α
  rawSteerCmdPrev  : α
  rawSteerCmdPprev : α

namespace Steering

variable [SinglePrecision α]

def initial (libc : Libc α) (ctrlPeriod steeringLpfCutoffHz steerLim : α) (delayStep : ℕ) :
    Steering α where
  steerLim         := steerLim
  lpfSteeringCmd   := .initialized libc ctrlPeriod steeringLpfCutoffHz
  inputBuffer      := .replicate delayStep 0.0
  rawSteerCmdPrev  := 0.0
  rawSteerCmdPprev := 0.0

-- The end of `calculateMPC`: the published angle for the optimiser's first input.
def calculateMPC (m : Steering α) (uex0 : α) : α × Steering α :=
  let uSaturated := stdClamp uex0 (-m.steerLim) m.steerLim
  let (uFiltered, lpf) := m.lpfSteeringCmd.filter uSaturated
  let steeringTireAngle := SinglePrecision.toSingle uFiltered
  (steeringTireAngle,
    { m with
      lpfSteeringCmd   := lpf
      inputBuffer      := (m.inputBuffer ++ [steeringTireAngle]).tail
      rawSteerCmdPprev := m.rawSteerCmdPrev
      rawSteerCmdPrev  := uex0 })

def stateAt (m : Steering α) (uex0 : ℕ → α) : ℕ → Steering α
  | 0     => m
  | n + 1 => ((m.stateAt uex0 n).calculateMPC (uex0 n)).2

def angleAt (m : Steering α) (uex0 : ℕ → α) (n : ℕ) : α :=
  ((m.stateAt uex0 n).calculateMPC (uex0 n)).1

-- The bound of the gate: the steering limit of the vehicle and a margin.
def Within (steerLim angle : α) : Prop :=
  -(steerLim + 1e-3) ≤ angle ∧ angle ≤ steerLim + 1e-3

end Steering
end
end Mpc
end SafetyIsland
