import Mathlib.Algebra.Order.Field.Basic
import SafetyIsland.Eigen.Matrix

namespace SafetyIsland.Mpc

open Eigen

section

variable {K : Type} [Field K] [LinearOrder K]

structure MPCWeight (K : Type) where
  latError                : K
  headingError            : K
  headingErrorSquaredVel  : K
  terminalLatError        : K
  terminalHeadingError    : K
  steeringInput           : K
  steeringInputSquaredVel : K
  latJerk                 : K
  steerRate               : K
  steerAcc                : K

structure MPCParam (K : Type) where
  predictionHorizon           : ℕ
  zeroFfSteerDeg              : K
  nominalWeight               : MPCWeight K
  lowCurvatureWeight          : MPCWeight K
  lowCurvatureThreshCurvature : K

-- The points of a resampled trajectory, by their index.
structure MPCTrajectory (K : Type) where
  vx      : ℕ → K
  k       : ℕ → K
  smoothK : ℕ → K

-- The coefficients of the discrete model.
structure Discrete (K : Type) where
  ad : ℕ → ℕ → K
  bd : ℕ → K
  cd : ℕ → ℕ → K
  wd : ℕ → K

-- The vehicle model, with one input and two outputs as every model of the repository has. What it
-- computes depends on the velocity and the curvature that are set before.
structure VehicleModel (K : Type) where
  dimX : ℕ
  calculateDiscreteMatrix : (velocity curvature dt : K) → Discrete K
  calculateReferenceInput : (velocity curvature : K) → K

def dimU : ℕ := 1
def dimY : ℕ := 2

structure MPC (K : Type) where
  param                      : MPCParam K
  vehicleModel               : VehicleModel K
  isForwardShift             : Bool
  ctrlPeriod                 : K
  steerLim                   : K
  rawSteerCmdPrev            : K
  rawSteerCmdPprev           : K
  steerRateLimMapByCurvature : List (K × K)
  steerRateLimMapByVelocity  : List (K × K)

structure MPCMatrix (K : Type) where
  aex    : MatrixXd K
  bex    : MatrixXd K
  wex    : MatrixXd K
  cex    : MatrixXd K
  qex    : MatrixXd K
  r1ex   : MatrixXd K
  r2ex   : MatrixXd K
  urefEx : MatrixXd K

def deg2rad (deg : K) : K :=
  deg * (314159265358979323846 / 10 ^ 20) / 180

namespace MPC

variable (mpc : MPC K)

def horizon : ℕ :=
  mpc.param.predictionHorizon

def signVx : K :=
  if mpc.isForwardShift then 1 else -1

def getWeight (curvature : K) : MPCWeight K :=
  if |curvature| < mpc.param.lowCurvatureThreshCurvature then mpc.param.lowCurvatureWeight
  else mpc.param.nominalWeight

-- The discrete model at the `i`-th point.
def discreteAt (traj : MPCTrajectory K) (dt : K) (i : ℕ) : Discrete K :=
  mpc.vehicleModel.calculateDiscreteMatrix (traj.vx i) (traj.k i * mpc.signVx) dt

def adaptiveQ (traj : MPCTrajectory K) (i : ℕ) : MatrixXd K :=
  let refVx := traj.vx i
  let refVxSquared := refVx * refVx
  let refK := traj.k i * mpc.signVx
  let mpcWeight := mpc.getWeight refK
  let q := ((MatrixXd.zero dimY dimY).set 0 0 mpcWeight.latError).set 1 1 mpcWeight.headingError
  let q :=
    if i = mpc.horizon - 1 then
      (q.set 0 0 mpc.param.nominalWeight.terminalLatError).set 1 1
        mpc.param.nominalWeight.terminalHeadingError
    else q
  q.addAt 1 1 (refVxSquared * mpcWeight.headingErrorSquaredVel)

def adaptiveR (traj : MPCTrajectory K) (i : ℕ) : MatrixXd K :=
  let refVx := traj.vx i
  let refVxSquared := refVx * refVx
  let refK := traj.k i * mpc.signVx
  let mpcWeight := mpc.getWeight refK
  let r := (MatrixXd.zero dimU dimU).set 0 0 mpcWeight.steeringInput
  r.addAt 0 0 (refVxSquared * mpcWeight.steeringInputSquaredVel)

-- The feed-forward input at the `i`-th point, without the noise of the curvature.
def referenceInput (traj : MPCTrajectory K) (i : ℕ) : K :=
  let uref := mpc.vehicleModel.calculateReferenceInput (traj.vx i) (traj.smoothK i * mpc.signVx)
  if |uref| < deg2rad mpc.param.zeroFfSteerDeg then 0 else uref

-- The loop over `j` that carries the earlier inputs through the dynamics of the `i`-th point.
def carryInput (ad : MatrixXd K) (dimX i : ℕ) (bex : MatrixXd K) (j : ℕ) : MatrixXd K :=
  bex.setBlock (i * dimX) (j * dimU) (ad * bex.block ((i - 1) * dimX) (j * dimU) dimX dimU)

def carryInputs (ad : MatrixXd K) (dimX i : ℕ) (bex : MatrixXd K) : MatrixXd K :=
  (List.range i).foldl (carryInput ad dimX i) bex

def adAt (traj : MPCTrajectory K) (dt : K) (i : ℕ) : MatrixXd K where
  rows  := mpc.vehicleModel.dimX
  cols  := mpc.vehicleModel.dimX
  coeff := (mpc.discreteAt traj dt i).ad

def bdAt (traj : MPCTrajectory K) (dt : K) (i : ℕ) : MatrixXd K where
  rows      := mpc.vehicleModel.dimX
  cols      := dimU
  coeff r _ := (mpc.discreteAt traj dt i).bd r

def cdAt (traj : MPCTrajectory K) (dt : K) (i : ℕ) : MatrixXd K where
  rows  := dimY
  cols  := mpc.vehicleModel.dimX
  coeff := (mpc.discreteAt traj dt i).cd

def wdAt (traj : MPCTrajectory K) (dt : K) (i : ℕ) : MatrixXd K where
  rows      := mpc.vehicleModel.dimX
  cols      := 1
  coeff r _ := (mpc.discreteAt traj dt i).wd r

section

variable {mpc} {traj : MPCTrajectory K} {dt : K} {i : ℕ}

omit [LinearOrder K]

@[simp] theorem adAt_rows : (mpc.adAt traj dt i).rows = mpc.vehicleModel.dimX := rfl

@[simp] theorem adAt_cols : (mpc.adAt traj dt i).cols = mpc.vehicleModel.dimX := rfl

@[simp] theorem bdAt_rows : (mpc.bdAt traj dt i).rows = mpc.vehicleModel.dimX := rfl

@[simp] theorem bdAt_cols : (mpc.bdAt traj dt i).cols = 1 := rfl

@[simp] theorem cdAt_rows : (mpc.cdAt traj dt i).rows = 2 := rfl

@[simp] theorem cdAt_cols : (mpc.cdAt traj dt i).cols = mpc.vehicleModel.dimX := rfl

end

-- One pass of the loop that predicts the dynamics.
def predict (traj : MPCTrajectory K) (dt : K) (m : MPCMatrix K) (i : ℕ) : MPCMatrix K :=
  let dimX := mpc.vehicleModel.dimX
  let ad := mpc.adAt traj dt i
  let bd := mpc.bdAt traj dt i
  let cd := mpc.cdAt traj dt i
  let wd := mpc.wdAt traj dt i
  let uref : MatrixXd K := .constant dimU 1 (mpc.referenceInput traj i)
  let idxXi := i * dimX
  let idxUi := i * dimU
  let idxYi := i * dimY
  let m :=
    if i = 0 then
      { m with
        aex := m.aex.setBlock 0 0 ad
        bex := m.bex.setBlock 0 0 bd
        wex := m.wex.setBlock 0 0 wd }
    else
      let idxXiPrev := (i - 1) * dimX
      { m with
        aex := m.aex.setBlock idxXi 0 (ad * m.aex.block idxXiPrev 0 dimX dimX)
        bex := carryInputs ad dimX i m.bex
        wex := m.wex.setBlock idxXi 0 (ad * m.wex.block idxXiPrev 0 dimX 1 + wd) }
  { m with
    bex    := m.bex.setBlock idxXi idxUi bd
    cex    := m.cex.setBlock idxYi idxXi cd
    qex    := m.qex.setBlock idxYi idxYi (mpc.adaptiveQ traj i)
    r1ex   := m.r1ex.setBlock idxUi idxUi (mpc.adaptiveR traj i)
    urefEx := m.urefEx.setBlock (i * dimU) 0 uref }

def zeroMatrices : MPCMatrix K :=
  let n := mpc.horizon
  let dimX := mpc.vehicleModel.dimX
  { aex    := .zero (dimX * n) dimX
    bex    := .zero (dimX * n) (dimU * n)
    wex    := .zero (dimX * n) 1
    cex    := .zero (dimY * n) (dimX * n)
    qex    := .zero (dimY * n) (dimY * n)
    r1ex   := .zero (dimU * n) (dimU * n)
    r2ex   := .zero (dimU * n) (dimU * n)
    urefEx := .zero (dimU * n) 1 }

def addLateralJerk (traj : MPCTrajectory K) (dt : K) (r2ex : MatrixXd K) : MatrixXd K :=
  (List.range (mpc.horizon - 1)).foldl (fun r2ex i =>
    let refVx := traj.vx i
    let refK := traj.k i * mpc.signVx
    let j := refVx * refVx * (mpc.getWeight refK).latJerk / (dt * dt)
    r2ex.addBlock i i (.of !![j, -j; -j, j])) r2ex

def addSteerRateR (dt : K) (r : MatrixXd K) : MatrixXd K :=
  let steerRateR := mpc.param.nominalWeight.steerRate / (dt * dt)
  let d := (MatrixXd.of !![1, -1; -1, 1]).smul steerRateR
  let r := (List.range (mpc.horizon - 1)).foldl (fun r i => r.addBlock i i d) r
  if 1 < mpc.horizon then
    -- steer rate i = 0
    r.addAt 0 0 (mpc.param.nominalWeight.steerRate / (mpc.ctrlPeriod * mpc.ctrlPeriod))
  else r

def addSteerAccR (dt : K) (r : MatrixXd K) : MatrixXd K :=
  let w := mpc.param.nominalWeight.steerAcc
  let steerAccR := w / dt ^ 4
  let steerAccRCp1 := w / (dt ^ 3 * mpc.ctrlPeriod)
  let steerAccRCp2 := w / (dt ^ 2 * mpc.ctrlPeriod ^ 2)
  let steerAccRCp4 := w / mpc.ctrlPeriod ^ 4
  let d := (MatrixXd.of !![1, -2, 1; -2, 4, -2; 1, -2, 1]).smul steerAccR
  let r := (List.range' 1 (mpc.horizon - 2)).foldl (fun r i => r.addBlock (i - 1) (i - 1) d) r
  if 1 < mpc.horizon then
    -- steer acc i = 1
    let r := r.addAt 0 0 (steerAccR * 1 + steerAccRCp2 * 1 + steerAccRCp1 * 2)
    let r := r.addAt 1 0 (steerAccR * -1 + steerAccRCp1 * -1)
    let r := r.addAt 0 1 (steerAccR * -1 + steerAccRCp1 * -1)
    let r := r.addAt 1 1 (steerAccR * 1)
    -- steer acc i = 0
    r.addAt 0 0 (steerAccRCp4 * 1)
  else r

def addSteerWeightR (dt : K) (r : MatrixXd K) : MatrixXd K :=
  mpc.addSteerAccR dt (mpc.addSteerRateR dt r)

def generateMPCMatrix (traj : MPCTrajectory K) (dt : K) : MPCMatrix K :=
  let m := (List.range mpc.horizon).foldl (mpc.predict traj dt) mpc.zeroMatrices
  { m with
    r2ex := mpc.addLateralJerk traj dt m.r2ex
    r1ex := mpc.addSteerWeightR dt m.r1ex }

def addSteerWeightF (dt : K) (f : MatrixXd K) : MatrixXd K :=
  if f.rows < 2 then f
  else
    -- steer rate for i = 0
    let f := f.addAt 0 0 (-2 * mpc.param.nominalWeight.steerRate / dt ^ 2 * (1 / 2))
    let steerAccRCp1 := mpc.param.nominalWeight.steerAcc / (dt ^ 3 * mpc.ctrlPeriod)
    let steerAccRCp2 := mpc.param.nominalWeight.steerAcc / (dt ^ 2 * mpc.ctrlPeriod ^ 2)
    let steerAccRCp4 := mpc.param.nominalWeight.steerAcc / mpc.ctrlPeriod ^ 4
    -- steer acc i = 0
    let f := f.addAt 0 0
      ((-2 * mpc.rawSteerCmdPrev + mpc.rawSteerCmdPprev) * steerAccRCp4 * (1 / 2))
    -- steer acc for i = 1
    let f := f.addAt 0 0
      (-2 * mpc.rawSteerCmdPrev * (steerAccRCp1 + steerAccRCp2) * (1 / 2))
    f.addAt 0 1 (2 * mpc.rawSteerCmdPrev * steerAccRCp1 * (1 / 2))

end MPC
end
end SafetyIsland.Mpc
