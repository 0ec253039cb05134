import SafetyIsland.Mpc.Matrices

namespace SafetyIsland.Mpc

open Eigen

section

variable {K : Type} [Field K] [LinearOrder K]

-- The limit at `current`, between the entries of a map that is sorted by its keys.
def interp (steerRateLimitMap : List (K × K)) (current : K) : K :=
  let reference := steerRateLimitMap.map (·.1)
  let limits := steerRateLimitMap.map (·.2)
  if current ≤ reference.headD 0 then limits.headD 0
  else if current ≥ reference.getLastD 0 then limits.getLastD 0
  else
    let segment := (List.range (reference.length - 1)).find? fun i =>
      reference.getD i 0 ≤ current ∧ current ≤ reference.getD (i + 1) 0
    match segment with
    | some i =>
      let width := reference.getD (i + 1) 0 - reference.getD i 0
      let ratio := max 0 (min ((current - reference.getD i 0) / max width (1 / 10 ^ 5)) 1)
      limits.getD i 0 + ratio * (limits.getD (i + 1) 0 - limits.getD i 0)
    | none => reference.getLastD 0

structure QpProblem (K : Type) where
  h   : MatrixXd K
  f   : MatrixXd K
  a   : MatrixXd K
  lb  : MatrixXd K
  ub  : MatrixXd K
  lbA : MatrixXd K
  ubA : MatrixXd K

def QpProblem.objective (p : QpProblem K) (u : ℕ → K) : K :=
  let n := Finset.range p.h.cols
  1 / 2 * ∑ i ∈ n, ∑ j ∈ n, u i * p.h.coeff i j * u j + ∑ i ∈ n, p.f.coeff i 0 * u i

namespace MPC

variable (mpc : MPC K)

def calcSteerRateLimitOnTrajectory (traj : MPCTrajectory K) (currentVelocity : K) :
    MatrixXd K :=
  let steerRateLim : K := 100
  if |currentVelocity| < 1 / 100 then .constant mpc.horizon 1 (steerRateLim * 1)
  else
    { rows := mpc.horizon
      cols := 1
      coeff := fun i _ =>
        min (interp mpc.steerRateLimMapByCurvature (traj.k i))
          (interp mpc.steerRateLimMapByVelocity (traj.vx i)) }

def linearTerms (m : MPCMatrix K) (x0 : ℕ → K) (predictionDt : K) : MatrixXd K :=
  let x0 := MatrixXd.column mpc.vehicleModel.dimX x0
  let cb := m.cex * m.bex
  let qcb := m.qex * cb
  let f := (m.cex * (m.aex * x0 + m.wex)).transpose * qcb - m.urefEx.transpose * m.r1ex
  mpc.addSteerWeightF predictionDt f

def qpProblem (m : MPCMatrix K) (x0 : ℕ → K) (predictionDt : K) (traj : MPCTrajectory K)
    (currentVelocity : K) : QpProblem K :=
  let dimUn := mpc.horizon * dimU
  let cb := m.cex * m.bex
  let qcb := m.qex * cb
  let h := (MatrixXd.zero dimUn dimUn).setUpper (cb.transpose * qcb)
  let h := h.setUpper (h + (m.r1ex + m.r2ex))
  let h := h.setLower h.transpose
  let f := mpc.linearTerms m x0 predictionDt
  let a := (List.range' 1 (dimUn - 1)).foldl (fun (a : MatrixXd K) i => a.set i (i - 1) (-1))
    (.identity dimUn)
  let steerRateLimits := mpc.calcSteerRateLimitOnTrajectory traj currentVelocity
  let ubA := steerRateLimits.smul predictionDt
  let lbA := steerRateLimits.smul (-predictionDt)
  { h   := h
    f   := f.transpose
    a   := a
    lb  := .constant dimUn 1 (-mpc.steerLim)
    ub  := .constant dimUn 1 mpc.steerLim
    lbA := lbA.set 0 0 (mpc.rawSteerCmdPrev - steerRateLimits.coeff 0 0 * mpc.ctrlPeriod)
    ubA := ubA.set 0 0 (mpc.rawSteerCmdPrev + steerRateLimits.coeff 0 0 * mpc.ctrlPeriod) }

-- Exact matrices are valid and the solver's answer is a number.
def executeOptimization (solve : QpProblem K → Option (ℕ → K)) (m : MPCMatrix K)
    (x0 : ℕ → K) (predictionDt : K) (traj : MPCTrajectory K) (currentVelocity : K) :
    Option (ℕ → K) :=
  solve (mpc.qpProblem m x0 predictionDt traj currentVelocity)

end MPC
end
end SafetyIsland.Mpc
