import SafetyIsland.Mpc.Filter
import SafetyIsland.Mpc.ReferenceTrajectory
import SafetyIsland.Mpc.Tracking
import SafetyIsland.Transition.Run

namespace SafetyIsland.MpcLateralController

open Fallible Transition UniverseUtils MPCUtils Lateral OnReal SinglePrecision

structure MPCParam extends preparation : Lateral.MPCParam ℝ, optimization : Mpc.MPCParam ℝ

-- Without the dynamic model, whose initial state also depends on the errors of the calls before.
inductive VehicleModel
  | kinematics (m : Mpc.KinematicsBicycleModel ℝ)
  | kinematicsNoDelay (m : Mpc.KinematicsBicycleModelNoDelay ℝ)

noncomputable def VehicleModel.model : VehicleModel → Mpc.VehicleModel ℝ
  | kinematics m        => m.model
  | kinematicsNoDelay m => m.model

structure LateralMsg where
  steeringTireAngle                 : ℝ
  steeringTireRotationRate          : ℝ
  isDefinedSteeringTireRotationRate : Bool

structure LateralHorizon where
  timeStepMs : ℝ
  controls   : List LateralMsg

structure Calculated where
  ctrlCmd        : LateralMsg
  ctrlCmdHorizon : LateralHorizon

structure MPC where
  param                      : MPCParam
  vehicleModel               : VehicleModel
  useSteerPrediction         : Bool
  ctrlPeriod                 : ℝ
  egoNearestDistThreshold    : ℝ
  egoNearestYawThreshold     : ℝ
  admissiblePositionError    : ℝ
  admissibleYawErrorRad      : ℝ
  steerLim                   : ℝ
  steerRateLimMapByCurvature : List (ℝ × ℝ)
  steerRateLimMapByVelocity  : List (ℝ × ℝ)
  isForwardShift             : Bool
  referenceTrajectory        : MPCUtils.MPCTrajectory ℝ
  inputBuffer                : List ℝ
  lpfSteeringCmd             : Mpc.Butterworth2dFilter ℝ
  rawSteerCmdPrev            : ℝ
  rawSteerCmdPprev           : ℝ

noncomputable def indexed (t : MPCUtils.MPCTrajectory ℝ) : Mpc.MPCTrajectory ℝ where
  vx i      := t.vx.getD i 0
  k i       := t.k.getD i 0
  smoothK i := t.smoothK.getD i 0

namespace MPC

section

variable (m : MPC)

noncomputable def getInitialState (data : MPCData ℝ) : ℕ → ℝ :=
  let steer := if m.useSteerPrediction then data.predictedSteer else data.steer
  match m.vehicleModel with
  | .kinematics _        => Mpc.vector ![data.lateralErr, data.yawErr, steer]
  | .kinematicsNoDelay _ => Mpc.vector ![data.lateralErr, data.yawErr]

-- The object, as the three parts of a calculation see it.
noncomputable def preparation : Lateral.MPC ℝ (ℕ → ℝ) where
  param                   := m.param.preparation
  ctrlPeriod              := m.ctrlPeriod
  egoNearestDistThreshold := m.egoNearestDistThreshold
  egoNearestYawThreshold  := m.egoNearestYawThreshold
  admissiblePositionError := m.admissiblePositionError
  admissibleYawErrorRad   := m.admissibleYawErrorRad
  isForwardShift          := m.isForwardShift
  inputBuffer             := m.inputBuffer
  referenceTrajectory     := m.referenceTrajectory
  getInitialState         := m.getInitialState
  step v k u              :=
    (m.vehicleModel.model.calculateDiscreteMatrix v k m.ctrlPeriod).step m.vehicleModel.model.dimX u

noncomputable def optimization : Mpc.MPC ℝ where
  param                      := m.param.optimization
  vehicleModel               := m.vehicleModel.model
  isForwardShift             := m.isForwardShift
  ctrlPeriod                 := m.ctrlPeriod
  steerLim                   := m.steerLim
  rawSteerCmdPrev            := m.rawSteerCmdPrev
  rawSteerCmdPprev           := m.rawSteerCmdPprev
  steerRateLimMapByCurvature := m.steerRateLimMapByCurvature
  steerRateLimMapByVelocity  := m.steerRateLimMapByVelocity

def steering : Mpc.Steering ℝ where
  steerLim         := m.steerLim
  lpfSteeringCmd   := m.lpfSteeringCmd
  inputBuffer      := m.inputBuffer
  rawSteerCmdPrev  := m.rawSteerCmdPrev
  rawSteerCmdPprev := m.rawSteerCmdPprev

def withSteering (s : Mpc.Steering ℝ) : MPC :=
  { m with
    lpfSteeringCmd   := s.lpfSteeringCmd
    inputBuffer      := s.inputBuffer
    rawSteerCmdPrev  := s.rawSteerCmdPrev
    rawSteerCmdPprev := s.rawSteerCmdPprev }

noncomputable def calcDesiredSteeringRate (mpcMatrix : Mpc.MPCMatrix ℝ) (x0 uex : ℕ → ℝ)
    (uFiltered currentSteer predictDt : ℝ) : ℝ :=
  match m.vehicleModel with
  | .kinematicsNoDelay _ => (uFiltered - currentSteer) / predictDt
  | .kinematics _        => (m.optimization.stateRow mpcMatrix x0 uex 2 - x0 2) / predictDt

noncomputable def control (back : LateralMsg) (u : ℝ) : LateralMsg :=
  let steeringTireAngle := toSingle (stdClamp u (-m.steerLim) m.steerLim)
  let rate := toSingle (steeringTireAngle - back.steeringTireAngle) / m.ctrlPeriod
  ⟨steeringTireAngle, toSingle rate, true⟩

noncomputable def pushControl (controls : List LateralMsg) (u : ℝ) : List LateralMsg :=
  controls ++ [m.control (controls.getLastD ⟨0, 0, false⟩) u]

-- The commands for the optimiser's inputs, and the object behind them. The low pass holds its last
-- answer.
noncomputable def command (currentSteer : ℝ) (mpcMatrix : Mpc.MPCMatrix ℝ)
    (prepared : Prepared ℝ (ℕ → ℝ)) (uex : ℕ → ℝ) : Calculated × MPC :=
  let (steeringTireAngle, steering) := m.steering.calculateMPC (uex 0)
  let rate := m.calcDesiredSteeringRate mpcMatrix prepared.x0Delayed uex
    steering.lpfSteeringCmd.y1 currentSteer prepared.predictionDt
  let ctrlCmd : LateralMsg := ⟨steeringTireAngle, toSingle rate, true⟩
  let controls := (List.range' 1 (m.param.predictionHorizon - 1)).foldl
    (fun controls i => m.pushControl controls (uex i)) [ctrlCmd]
  (⟨ctrlCmd, ⟨prepared.predictionDt * 1000.0, controls⟩⟩, m.withSteering steering)

-- The answer of the steering predictor is an argument.
noncomputable def calculateMPC (solve : Mpc.QpProblem ℝ → Option (ℕ → ℝ))
    (currentSteer predictedSteer : ℝ) (currentKinematics : Kinematics ℝ) :
    Except Failure (Except String (Calculated × MPC)) := do
  match ← m.preparation.prepare currentSteer predictedSteer currentKinematics with
  | .error reason => return .error reason
  | .ok prepared  =>
    let resampled := indexed prepared.resampled
    let mpcMatrix := m.optimization.generateMPCMatrix resampled prepared.predictionDt
    match m.optimization.executeOptimization solve mpcMatrix prepared.x0Delayed
      prepared.predictionDt resampled currentKinematics.linearX with
    | none     => return .error "optimization failure (qp solver error)."
    | some uex => return .ok (m.command currentSteer mpcMatrix prepared uex)

noncomputable def setReferenceTrajectory (fuel : ℕ) (trajectoryMsg : List (TrajectoryPoint ℝ))
    (param : TrajectoryFilteringParam ℝ) (currentKinematics : Kinematics ℝ) :
    Except Failure MPC := do
  let p ← m.preparation.setReferenceTrajectory fuel trajectoryMsg param currentKinematics
  return { m with
    isForwardShift      := p.isForwardShift
    referenceTrajectory := p.referenceTrajectory }

noncomputable def resetPrevResult (currentSteer : ℝ) : MPC :=
  let steerLimF := toSingle m.steerLim
  { m with
    rawSteerCmdPrev  := stdClamp currentSteer (-steerLimF) steerLimF
    rawSteerCmdPprev := stdClamp currentSteer (-steerLimF) steerLimF }

-- What `MpcLateralController::run` writes when the vehicle is stopped.
def hold (ctrlCmdPrev : ℝ) : MPC :=
  { m with
    inputBuffer     := m.inputBuffer.map fun _ => ctrlCmdPrev
    rawSteerCmdPrev := ctrlCmdPrev }

inductive Call
  | calculateMPC (currentSteer predictedSteer : ℝ) (currentKinematics : Kinematics ℝ)
  | setReferenceTrajectory (fuel : ℕ) (trajectoryMsg : List (TrajectoryPoint ℝ))
    (param : TrajectoryFilteringParam ℝ) (currentKinematics : Kinematics ℝ)
  | resetPrevResult (currentSteer : ℝ)
  | hold (ctrlCmdPrev : ℝ)

-- A calculation that reports a reason leaves the object as it was.
noncomputable def step (solve : Mpc.QpProblem ℝ → Option (ℕ → ℝ)) : Call → Option MPC
  | .calculateMPC steer predicted kinematics =>
    match m.calculateMPC solve steer predicted kinematics with
    | .ok (.ok (_, m')) => some m'
    | .ok (.error _)    => some m
    | .error _          => none
  | .setReferenceTrajectory fuel msg param kinematics =>
    (m.setReferenceTrajectory fuel msg param kinematics).toOption
  | .resetPrevResult steer => some (m.resetPrevResult steer)
  | .hold previous         => some (m.hold previous)

end

section

variable {m m' : MPC} {llt : Mpc.Llt ℝ} {p : Prepared ℝ (ℕ → ℝ)}
  {solve : Mpc.QpProblem ℝ → Option (ℕ → ℝ)} {kinematics : Kinematics ℝ} {uex : ℕ → ℝ}
  {steer predicted : ℝ}

structure Sane (m : MPC) : Prop where
  preparation : m.preparation.Sane
  weights     : m.optimization.param.Nonneg

-- What no call changes.
structure Keeps (m m' : MPC) : Prop where
  param       : m'.param = m.param
  ctrlPeriod  : m'.ctrlPeriod = m.ctrlPeriod
  inputBuffer : m'.inputBuffer.length = m.inputBuffer.length

theorem Keeps.rfl : Keeps m m :=
  ⟨Eq.refl _, Eq.refl _, Eq.refl _⟩

theorem Keeps.trans {m₁ m₂ m₃ : MPC} (h₁ : Keeps m₁ m₂) (h₂ : Keeps m₂ m₃) : Keeps m₁ m₃ :=
  ⟨h₂.param.trans h₁.param, h₂.ctrlPeriod.trans h₁.ctrlPeriod,
    h₂.inputBuffer.trans h₁.inputBuffer⟩

theorem Keeps.sane (h : Keeps m m') (hm : m.Sane) : m'.Sane where
  preparation := hm.preparation.of_same (congrArg MPCParam.preparation h.param) h.ctrlPeriod
    h.inputBuffer
  weights     := by
    have hp : m'.optimization.param = m.optimization.param :=
      congrArg MPCParam.optimization h.param
    rw [hp]
    exact hm.weights

-- The commands of the horizon after the first `k` ones.
structure Follow (m : MPC) (uex : ℕ → ℝ) (ctrlCmd : LateralMsg) (k : ℕ)
    (controls : List LateralMsg) : Prop where
  length : controls.length = k + 1
  first  : controls[0]? = some ctrlCmd
  next   : ∀ i < k, ∃ back, controls[i]? = some back ∧
    controls[i + 1]? = some (m.control back (uex (i + 1)))

theorem Follow.push {ctrlCmd : LateralMsg} {k : ℕ} {controls : List LateralMsg}
    (h : Follow m uex ctrlCmd k controls) :
    Follow m uex ctrlCmd (k + 1) (m.pushControl controls (uex (k + 1))) := by
  have hl := h.length
  have hk : controls[k]? = some (controls.getLastD ⟨0, 0, false⟩) := by
    rw [List.getLastD_eq_getLast?, List.getLast?_eq_getElem?, hl, Nat.add_sub_cancel,
      List.getElem?_eq_getElem (by omega), Option.getD_some]
  constructor
  case length => simp [pushControl, hl]
  case first  =>
    rw [pushControl, List.getElem?_append_left (by omega)]
    exact h.first
  case next   =>
    intro i hi
    rw [pushControl, List.getElem?_append_left (by omega)]
    rcases Nat.lt_succ_iff_lt_or_eq.mp hi with hlt | rfl
    case inl =>
      obtain ⟨back, hb, hn⟩ := h.next i hlt
      exact ⟨back, hb, by rwa [List.getElem?_append_left (by omega)]⟩
    case inr =>
      refine ⟨_, hk, ?_⟩
      rw [List.getElem?_append_right (by omega), hl, Nat.sub_self]
      rfl

noncomputable def problem (m : MPC) (kinematics : Kinematics ℝ) (p : Prepared ℝ (ℕ → ℝ)) :
    Mpc.QpProblem ℝ :=
  m.optimization.generatedProblem (indexed p.resampled) p.predictionDt p.x0Delayed
    kinematics.linearX

-- What a calculation returns: the optimum `uex`, and the commands for it.
structure Solved (m : MPC) (kinematics : Kinematics ℝ) (p : Prepared ℝ (ℕ → ℝ)) (uex : ℕ → ℝ)
    (c : Calculated) : Prop where
  fits     : m.preparation.Fits kinematics p
  least    : ∀ v, (m.problem kinematics p).objective uex ≤ (m.problem kinematics p).objective v
  unique   : ∀ v, (m.problem kinematics p).objective v ≤ (m.problem kinematics p).objective uex →
    ∀ i < m.param.predictionHorizon, v i = uex i
  angle    : 0 ≤ m.steerLim → c.ctrlCmd.steeringTireAngle =
    m.lpfSteeringCmd.output (max (-m.steerLim) (min (uex 0) m.steerLim))
  -- The rate of the bicycle at the mean of its angles in the first interval.
  rate     : ∀ b, m.vehicleModel = .kinematics b → 0 < b.steerTau →
    c.ctrlCmd.steeringTireRotationRate = (uex 0 - (p.x0Delayed 2 +
      m.optimization.predictedState (indexed p.resampled) p.predictionDt p.x0Delayed uex 1 2) / 2) /
        b.steerTau
  controls : Follow m uex c.ctrlCmd (m.param.predictionHorizon - 1) c.ctrlCmdHorizon.controls

inductive Answers (m : MPC) (kinematics : Kinematics ℝ) : Except String (Calculated × MPC) → Prop
  | unprepared (reason : String) (h : m.preparation.Answers kinematics (.error reason)) :
    Answers m kinematics (.error reason)
  | unsolved (p : Prepared ℝ (ℕ → ℝ)) (h : m.preparation.Fits kinematics p)
    (hd : |((m.problem kinematics p).h.toMatrix m.param.predictionHorizon
      m.param.predictionHorizon).det| < 1 / 10 ^ 9) :
    Answers m kinematics (.error "optimization failure (qp solver error).")
  | solved (p : Prepared ℝ (ℕ → ℝ)) (uex : ℕ → ℝ) (c : Calculated) (m' : MPC)
    (h : m.Solved kinematics p uex c) : Answers m kinematics (.ok (c, m'))

end

section

local instance atLeastTwo_three : Nat.AtLeastTwo 3 := ⟨by decide⟩
local instance atLeastTwo_five : Nat.AtLeastTwo 5 := ⟨by decide⟩
local instance atLeastTwo_seven : Nat.AtLeastTwo 7 := ⟨by decide⟩
local instance atLeastTwo_ten : Nat.AtLeastTwo 10 := ⟨by decide⟩
local instance atLeastTwo_thousand : Nat.AtLeastTwo 1000 := ⟨by decide⟩

-- A controller before its first path, with a delay of two periods.
noncomputable def fresh : MPC where
  param                      := {
    preparation                 := Lateral.MPC.crawling.param
    zeroFfSteerDeg              := 0.5
    nominalWeight               := Mpc.Sample.curveWeight
    lowCurvatureWeight          := { Mpc.Sample.curveWeight with latError := 0.1, latJerk := 0 }
    lowCurvatureThreshCurvature := 0
  }
  vehicleModel               := .kinematics Mpc.Sample.bicycle
  useSteerPrediction         := false
  ctrlPeriod                 := 0.15
  egoNearestDistThreshold    := 3
  egoNearestYawThreshold     := 1
  admissiblePositionError    := 5
  admissibleYawErrorRad      := 1.57
  steerLim                   := 0.7
  steerRateLimMapByCurvature := [(1 / 1000, 7 / 10)]
  steerRateLimMapByVelocity  := [(10, 1)]
  isForwardShift             := true
  referenceTrajectory        := MPCTrajectory.cleared
  inputBuffer                := [0, 0]
  lpfSteeringCmd             := .initialized ⟨Real.tan, Real.sqrt⟩ 0.15 3
  rawSteerCmdPrev            := 0
  rawSteerCmdPprev           := 0

end

end MPC
end SafetyIsland.MpcLateralController
