import Mathlib.Analysis.Real.Pi.Bounds
import SafetyIsland.Mpc.Solver
import SafetyIsland.Mpc.Vehicle

namespace SafetyIsland.Mpc

open Eigen MatrixXd Matrix Linear Trigonometry

section

variable {K : Type} [Field K] [LinearOrder K] [IsStrictOrderedRing K] [Trigonometry K]
variable {m : KinematicsBicycleModel K} {dt u velocity curvature : K} {x : ℕ → K}

namespace KinematicsBicycleModel

omit [IsStrictOrderedRing K] in
theorem det_ad (velocity curvature h : K) :
    (1 - h • m.ad velocity curvature).det = 1 + h / m.steerTau := by
  rw [det_fin_three]
  simp [ad]
  ring

theorem det_ad_ne_zero (hτ : 0 < m.steerTau) (hdt : 0 < dt) :
    (1 - (dt * (1 / 2)) • m.ad velocity curvature).det ≠ 0 := by
  rw [det_ad]
  positivity

-- One step, as the change of the errors and of the steering angle by the means of its two ends.
structure Trapezoidal (m : KinematicsBicycleModel K) (v curvature dt u : K) (x y : ℕ → K) :
    Prop where
  lateral  : y 0 - x 0 = dt * (v * ((x 1 + y 1) / 2))
  yaw      : y 1 - x 1 = dt * (v / m.wheelbase * (tan (m.deltaR curvature) +
    ((x 2 + y 2) / 2 - m.deltaR curvature) * m.cosDeltaRSquaredInv curvature) - v * curvature)
  steering : y 2 - x 2 = dt * ((u - (x 2 + y 2) / 2) / m.steerTau)

theorem step_trapezoidal (hτ : 0 < m.steerTau) (hdt : 0 < dt) :
    m.Trapezoidal (KinematicsBicycleModel.velocity velocity) curvature dt u x
      ((m.calculateDiscreteMatrix velocity curvature dt).step 3 u x) := by
  set y := (m.calculateDiscreteMatrix velocity curvature dt).step 3 u x with hy
  have hs : MatrixXd.vec 3 y = bilinearStep (m.ad (KinematicsBicycleModel.velocity velocity) curvature)
      (u • m.bd + m.wd (KinematicsBicycleModel.velocity velocity) curvature) (dt * (1 / 2))
      (MatrixXd.vec 3 x) := discretize_step
  rw [eq_bilinearStep_iff (det_ad_ne_zero hτ hdt)] at hs
  have h₀ := congrFun hs 0
  have h₁ := congrFun hs 1
  have h₂ := congrFun hs 2
  simp [MatrixXd.vec, ad, bd, wd, dotProduct, Fin.sum_univ_three] at h₀ h₁ h₂
  constructor
  · linear_combination h₀
  · linear_combination h₁
  · linear_combination h₂

theorem step_of_rest (hτ : 0 < m.steerTau) (hdt : 0 < dt) (hL : m.wheelbase ≠ 0)
    (ht : tan (m.deltaR curvature) = m.wheelbase * curvature)
    (hx : MatrixXd.vec 3 x = ![0, 0, m.deltaR curvature]) :
    MatrixXd.vec 3 ((m.calculateDiscreteMatrix velocity curvature dt).step 3 (m.deltaR curvature) x) =
      ![0, 0, m.deltaR curvature] := by
  rw [calculateDiscreteMatrix, discretize_step, hx]
  refine bilinearStep_of_rest (det_ad_ne_zero hτ hdt) ?_
  funext r
  fin_cases r
  · simp [ad, bd, wd]
  · simp [ad, bd, wd, ht]
    field_simp
    ring
  · simp [ad, bd, wd]
    ring

end KinematicsBicycleModel

namespace MPC

variable {mpc : MPC K} {traj : MPCTrajectory K} {x0 : ℕ → K} {u : ℕ → K} {i : ℕ}

-- The state at the `i`-th time of the horizon, as the matrices of the optimisation give it.
def predictedState (mpc : MPC K) (traj : MPCTrajectory K) (dt : K) (x0 u : ℕ → K) : ℕ → ℕ → K
  | 0     => x0
  | i + 1 => fun r =>
    mpc.stateRow (mpc.generateMPCMatrix traj dt) x0 u (i * mpc.vehicleModel.dimX + r)

omit [IsStrictOrderedRing K] [Trigonometry K] in
theorem predictedState_eq {r : ℕ} (hr : r < mpc.vehicleModel.dimX) (hi : i ≤ mpc.horizon) :
    mpc.predictedState traj dt x0 u i r = mpc.state traj dt x0 u i r := by
  cases i
  case zero   => rfl
  case succ i => exact stateRow_predicted hr le_rfl hi

-- The matrices predict the errors of the linearized bicycle by the trapezoidal rule.
theorem prediction_trapezoidal (hm : mpc.vehicleModel = m.model) (hτ : 0 < m.steerTau)
    (hdt : 0 < dt) (hi : i < mpc.horizon) :
    m.Trapezoidal (KinematicsBicycleModel.velocity (traj.vx i)) (traj.k i * mpc.signVx) dt (u i)
      (mpc.predictedState traj dt x0 u i) (mpc.predictedState traj dt x0 u (i + 1)) := by
  have hd : mpc.vehicleModel.dimX = 3 := by rw [hm]; rfl
  have hs : mpc.state traj dt x0 u (i + 1) =
      (m.calculateDiscreteMatrix (traj.vx i) (traj.k i * mpc.signVx) dt).step 3 (u i)
        (mpc.state traj dt x0 u i) := by
    rw [state, discreteAt, hm]
    rfl
  have ht : m.Trapezoidal (KinematicsBicycleModel.velocity (traj.vx i)) (traj.k i * mpc.signVx) dt
      (u i) (mpc.state traj dt x0 u i) (mpc.state traj dt x0 u (i + 1)) := by
    rw [hs]
    exact KinematicsBicycleModel.step_trapezoidal hτ hdt
  have he {r j : ℕ} (hr : r < 3) (hj : j ≤ mpc.horizon) :
      mpc.predictedState traj dt x0 u j r = mpc.state traj dt x0 u j r :=
    predictedState_eq (hd ▸ hr) hj
  obtain ⟨h₀, h₁, h₂⟩ := ht
  constructor
  · rwa [he (by decide) hi.le, he (by decide) hi.le, he (by decide) hi, he (by decide) hi]
  · rwa [he (by decide) hi.le, he (by decide) hi.le, he (by decide) hi, he (by decide) hi]
  · rwa [he (by decide) hi.le, he (by decide) hi]

omit [Trigonometry K] in
theorem objective_eq_deviation (hN : 2 ≤ mpc.horizon) :
    (mpc.generatedProblem traj dt x0 velocity).objective u =
      1 / 2 * (mpc.trackingCost traj dt x0 u +
        bilin mpc.horizon (mpc.generateMPCMatrix traj dt).r1ex (u - mpc.referenceInput traj)
          (u - mpc.referenceInput traj) + mpc.jerkForm traj dt u u) -
      1 / 2 * (bilin (2 * mpc.horizon) (mpc.generateMPCMatrix traj dt).qex
          (fun k => (mpc.freeOutputs (mpc.generateMPCMatrix traj dt) x0).coeff k 0)
          (fun k => (mpc.freeOutputs (mpc.generateMPCMatrix traj dt) x0).coeff k 0) +
        bilin mpc.horizon (mpc.generateMPCMatrix traj dt).r1ex (mpc.referenceInput traj)
          (mpc.referenceInput traj)) := by
  have ho : (mpc.generatedProblem traj dt x0 velocity).objective u =
      1 / 2 * bilin mpc.horizon (mpc.generatedProblem traj dt x0 velocity).h u u +
        ∑ i ∈ Finset.range mpc.horizon,
          (mpc.generatedProblem traj dt x0 velocity).f.coeff i 0 * u i := by
    rw [bilin_eq_sum, QpProblem.objective, cols_generated_h]
  have hq : Symm (2 * mpc.horizon) (mpc.generateMPCMatrix traj dt).qex := symm_qex le_rfl
  rw [ho, bilin_h hN, sum_f, ← trackingCost_eq, outputs, hq.bilin_self_add,
    (symm_generated_r1ex hN).bilin_self_sub]
  simp only [cb]
  ring

omit [Trigonometry K] in
theorem nonneg_trackingCost (hw : mpc.param.Nonneg) : 0 ≤ mpc.trackingCost traj dt x0 u :=
  Finset.sum_nonneg fun _ _ => add_nonneg (mul_nonneg (nonneg_latWeight hw) (sq_nonneg _))
    (mul_nonneg (nonneg_headingWeight hw) (sq_nonneg _))

omit [Trigonometry K] in
theorem executeOptimization_eq_reference {llt : Llt K} (hl : llt.Solves) (hN : 2 ≤ mpc.horizon)
    (hw : mpc.param.Nonneg)
    (ho : ∀ i < mpc.horizon, ∀ p < 2,
      mpc.outputAt traj dt x0 (mpc.referenceInput traj) i p = 0)
    (hr : ∀ i, i + 1 < mpc.horizon → mpc.referenceInput traj (i + 1) = mpc.referenceInput traj i)
    (h : mpc.executeOptimization (QPSolverEigenLeastSquareLLT.solve llt)
      (mpc.generateMPCMatrix traj dt) x0 dt traj velocity = some u) :
    ∀ i < mpc.horizon, u i = mpc.referenceInput traj i := by
  have hs : Quadratic.Semidefinite
      ((mpc.generatedProblem traj dt x0 velocity).h.toMatrix mpc.horizon mpc.horizon) :=
    semidefinite_h hN hw
  obtain ⟨hd, hx⟩ := solve_slope hl hN hw h
  have ht : mpc.trackingCost traj dt x0 (mpc.referenceInput traj) = 0 := by
    refine Finset.sum_eq_zero fun i hi => ?_
    rw [ho i (Finset.mem_range.mp hi) 0 (by decide), ho i (Finset.mem_range.mp hi) 1 (by decide)]
    ring
  have hj : mpc.jerkForm traj dt (mpc.referenceInput traj) (mpc.referenceInput traj) = 0 := by
    refine Finset.sum_eq_zero fun i hi => ?_
    have hi := Finset.mem_range.mp hi
    rw [hr i (by omega)]
    ring
  have hle : (mpc.generatedProblem traj dt x0 velocity).objective (mpc.referenceInput traj) ≤
      (mpc.generatedProblem traj dt x0 velocity).objective u := by
    rw [objective_eq_deviation hN, objective_eq_deviation hN, ht, hj, sub_self]
    have hz : bilin mpc.horizon (mpc.generateMPCMatrix traj dt).r1ex 0 0 = 0 := by
      simp [bilin_eq_sum]
    have h₁ : 0 ≤ mpc.trackingCost traj dt x0 u := nonneg_trackingCost hw
    have h₂ : 0 ≤ bilin mpc.horizon (mpc.generateMPCMatrix traj dt).r1ex
      (u - mpc.referenceInput traj) (u - mpc.referenceInput traj) := nonneg_generated_r1ex hN hw
    have h₃ : 0 ≤ mpc.jerkForm traj dt u u := nonneg_jerkForm hw
    rw [hz]
    linarith
  rw [objective_generated, objective_generated] at hle
  intro i hi
  exact (congrFun (hs.eq_of_objective_le hd hx hle) ⟨i, hi⟩).symm

section Curve

variable {k : K} (hm : mpc.vehicleModel = m.model) (hτ : 0 < m.steerTau) (hdt : 0 < dt)
variable (hL : m.wheelbase ≠ 0) (htan : ∀ x : K, tan (atan x) = x)
variable (hk : ∀ i < mpc.horizon, traj.k i = k ∧ traj.smoothK i = k)
variable (hlim : |atan (m.wheelbase * (k * mpc.signVx))| < m.steerLim)
include hm hτ hdt hL htan hk hlim

theorem state_of_rest (hu : ∀ i < mpc.horizon, u i = atan (m.wheelbase * (k * mpc.signVx)))
    (hx : MatrixXd.vec 3 x0 = ![0, 0, atan (m.wheelbase * (k * mpc.signVx))]) (hi : i ≤ mpc.horizon) :
    MatrixXd.vec 3 (mpc.state traj dt x0 u i) = ![0, 0, atan (m.wheelbase * (k * mpc.signVx))] := by
  have hδ : m.deltaR (k * mpc.signVx) = atan (m.wheelbase * (k * mpc.signVx)) :=
    if_neg (not_le.mpr hlim)
  induction i
  case zero      => exact hx
  case succ i ih =>
    have hs : mpc.state traj dt x0 u (i + 1) =
        (m.calculateDiscreteMatrix (traj.vx i) (k * mpc.signVx) dt).step 3
          (m.deltaR (k * mpc.signVx)) (mpc.state traj dt x0 u i) := by
      rw [state, discreteAt, hm, (hk i hi).1, hu i hi, hδ]
      rfl
    rw [hs, ← hδ]
    refine KinematicsBicycleModel.step_of_rest hτ hdt hL ?_ ?_
    · rw [hδ, htan]
    · rw [hδ]
      exact ih (Nat.le_of_succ_le hi)

-- On a curve that the vehicle can follow, without an error and with the wheels standing for it,
-- the optimisation holds the angle of the curve, and predicts that the vehicle stays on it.
theorem executeOptimization_follows {llt : Llt K} (hl : llt.Solves) (hN : 2 ≤ mpc.horizon)
    (hw : mpc.param.Nonneg)
    (hff : deg2rad mpc.param.zeroFfSteerDeg ≤ |atan (m.wheelbase * (k * mpc.signVx))| ∨
      atan (m.wheelbase * (k * mpc.signVx)) = 0)
    (hx : MatrixXd.vec 3 x0 = ![0, 0, atan (m.wheelbase * (k * mpc.signVx))])
    (h : mpc.executeOptimization (QPSolverEigenLeastSquareLLT.solve llt)
      (mpc.generateMPCMatrix traj dt) x0 dt traj velocity = some u) :
    (∀ i < mpc.horizon, u i = atan (m.wheelbase * (k * mpc.signVx))) ∧
      ∀ i ≤ mpc.horizon, ∀ p < 2, mpc.predictedState traj dt x0 u i p = 0 := by
  have hd : mpc.vehicleModel.dimX = 3 := by rw [hm]; rfl
  have hr : ∀ i < mpc.horizon,
      mpc.referenceInput traj i = atan (m.wheelbase * (k * mpc.signVx)) := by
    intro i hi
    have hu : mpc.vehicleModel.calculateReferenceInput (traj.vx i)
        (traj.smoothK i * mpc.signVx) = atan (m.wheelbase * (k * mpc.signVx)) := by
      rw [hm, (hk i hi).2]
      rfl
    simp only [referenceInput, hu]
    split_ifs with hz
    · exact (hff.resolve_left (not_le.mpr hz)).symm
    · rfl
  have hstate {v : ℕ → K} (hv : ∀ i < mpc.horizon, v i = atan (m.wheelbase * (k * mpc.signVx)))
      {i p : ℕ} (hi : i ≤ mpc.horizon) (hp : p < 2) : mpc.state traj dt x0 v i p = 0 := by
    have hs := congrFun (state_of_rest hm hτ hdt hL htan hk hlim hv hx hi) ⟨p, by omega⟩
    rw [MatrixXd.vec] at hs
    rw [hs]
    interval_cases p <;> rfl
  have ho : ∀ i < mpc.horizon, ∀ p < 2,
      mpc.outputAt traj dt x0 (mpc.referenceInput traj) i p = 0 := by
    intro i hi p hp
    rw [outputAt, hd, discreteAt, hm, Finset.sum_range_succ, Finset.sum_range_succ,
      Finset.sum_range_one, hstate hr hi (by decide), hstate hr hi (by decide)]
    have hc : (m.model.calculateDiscreteMatrix (traj.vx i) (traj.k i * mpc.signVx) dt).cd p 2 =
        0 := by
      interval_cases p <;> rfl
    rw [hc]
    ring
  have hu : ∀ i < mpc.horizon, u i = atan (m.wheelbase * (k * mpc.signVx)) := by
    intro i hi
    rw [executeOptimization_eq_reference hl hN hw ho (fun j hj => ?_) h i hi, hr i hi]
    rw [hr _ hj, hr j (Nat.lt_of_succ_lt hj)]
  refine ⟨hu, fun i hi p hp => ?_⟩
  rw [predictedState_eq (by omega) hi]
  exact hstate hu hi hp

end Curve

end MPC
end

namespace MPC

section

variable {mpc : MPC ℝ} {traj : MPCTrajectory ℝ} {dt w velocity : ℝ} {x0 u : ℕ → ℝ}

theorem le_bilin_h (hN : 2 ≤ mpc.horizon) (hw : mpc.param.Nonneg)
    (hi : ∀ i < mpc.horizon, w ≤ mpc.inputWeight traj i) :
    w * ∑ i ∈ Finset.range mpc.horizon, u i * u i ≤
      bilin mpc.horizon (mpc.generatedProblem traj dt x0 velocity).h u u := by
  have hs : w * ∑ i ∈ Finset.range mpc.horizon, u i * u i ≤
      ∑ i ∈ Finset.range mpc.horizon, mpc.inputWeight traj i * (u i * u i) := by
    rw [Finset.mul_sum]
    refine Finset.sum_le_sum fun i hmem => ?_
    exact mul_le_mul_of_nonneg_right (hi i (Finset.mem_range.mp hmem)) (mul_self_nonneg _)
  rw [bilin_h hN, bilin_generated_r1ex hN]
  have hq : 0 ≤ bilin (2 * mpc.horizon) (mpc.generateMPCMatrix traj dt).qex
    (apply mpc.horizon (mpc.cb traj dt) u) (apply mpc.horizon (mpc.cb traj dt) u) := nonneg_qex hw
  have hr : 0 ≤ mpc.steerSlope dt 0 0 u u := nonneg_steerSlope hw
  have hj : 0 ≤ mpc.jerkForm traj dt u u := nonneg_jerkForm hw
  linarith

theorem sq_le_det {m : Matrix (Fin 2) (Fin 2) ℝ} (hw : 0 ≤ w) (hs : m 1 0 = m 0 1)
    (h : ∀ x y, w * (x * x + y * y) ≤ m 0 0 * (x * x) + 2 * m 0 1 * (x * y) + m 1 1 * (y * y)) :
    w * w ≤ m.det := by
  have hd : discrim (m 0 0 - w) (2 * m 0 1) (m 1 1 - w) ≤ 0 := by
    refine discrim_le_zero fun x => ?_
    have := h x 1
    linarith
  have h₀ := h 1 0
  have h₁ := h 0 1
  rw [discrim] at hd
  rw [det_fin_two, hs]
  nlinarith

theorem sq_le_det_h (hN : mpc.horizon = 2) (hw : mpc.param.Nonneg) (h₀ : 0 ≤ w)
    (hi : ∀ i < mpc.horizon, w ≤ mpc.inputWeight traj i) :
    w * w ≤ ((mpc.generatedProblem traj dt x0 velocity).h.toMatrix 2 2).det := by
  have hs : Symm 2 (mpc.generatedProblem traj dt x0 velocity).h := symm_generated_h
  have h₁₀ : (mpc.generatedProblem traj dt x0 velocity).h.coeff 1 0 =
    (mpc.generatedProblem traj dt x0 velocity).h.coeff 0 1 := hs (by decide) (by decide)
  refine sq_le_det h₀ h₁₀ fun x y => ?_
  have hb := @le_bilin_h mpc traj dt w velocity x0 (fun i => if i = 0 then x else y) hN.ge hw hi
  rw [bilin_eq_sum, hN] at hb
  simp only [Finset.sum_range_succ, Finset.sum_range_zero, h₁₀, zero_add, if_true,
    one_ne_zero, if_false] at hb
  change w * (x * x + y * y) ≤ (mpc.generatedProblem traj dt x0 velocity).h.coeff 0 0 * (x * x) +
    2 * (mpc.generatedProblem traj dt x0 velocity).h.coeff 0 1 * (x * y) +
      (mpc.generatedProblem traj dt x0 velocity).h.coeff 1 1 * (y * y)
  linarith

end
end MPC

namespace Sample

section

local instance atLeastTwo_two : Nat.AtLeastTwo 2 := ⟨by decide⟩
local instance atLeastTwo_three : Nat.AtLeastTwo 3 := ⟨by decide⟩
local instance atLeastTwo_four : Nat.AtLeastTwo 4 := ⟨by decide⟩
local instance atLeastTwo_seven : Nat.AtLeastTwo 7 := ⟨by decide⟩
local instance atLeastTwo_ten : Nat.AtLeastTwo 10 := ⟨by decide⟩
local instance atLeastTwo_twenty : Nat.AtLeastTwo 20 := ⟨by decide⟩
local instance atLeastTwo_thousand : Nat.AtLeastTwo 1000 := ⟨by decide⟩

noncomputable def bicycle : KinematicsBicycleModel ℝ where
  wheelbase := 2
  steerLim  := 1
  steerTau  := 3 / 10

noncomputable def curveWeight : MPCWeight ℝ where
  latError                := 1
  headingError            := 0
  headingErrorSquaredVel  := 3 / 10
  terminalLatError        := 1
  terminalHeadingError    := 1 / 10
  steeringInput           := 1
  steeringInputSquaredVel := 1 / 4
  latJerk                 := 1 / 10
  steerRate               := 0
  steerAcc                := 1 / 10 ^ 6

noncomputable def curveMpc : MPC ℝ where
  param :=
    { predictionHorizon           := 2
      zeroFfSteerDeg              := 1 / 2
      nominalWeight               := curveWeight
      lowCurvatureWeight          := curveWeight
      lowCurvatureThreshCurvature := 0 }
  vehicleModel               := bicycle.model
  isForwardShift             := true
  ctrlPeriod                 := 3 / 20
  steerLim                   := 1
  rawSteerCmdPrev            := 0
  rawSteerCmdPprev           := 0
  steerRateLimMapByCurvature := [(1 / 1000, 7 / 10)]
  steerRateLimMapByVelocity  := [(10, 1)]

-- A curve with a radius of 2 m.
noncomputable def curve : MPCTrajectory ℝ where
  vx _      := 1
  k _       := 1 / 2
  smoothK _ := 1 / 2

-- On the curve, with the wheels standing for it.
noncomputable def onCurve : ℕ → ℝ :=
  vector ![0, 0, Real.pi / 4]

end

end Sample

namespace MPC

theorem prediction_trapezoidal_curve :
    Sample.bicycle.Trapezoidal (KinematicsBicycleModel.velocity 1) (1 / 2 * 1) (1 / 10)
      (Real.pi / 4)
      (Sample.curveMpc.predictedState Sample.curve (1 / 10) 0 (fun _ => Real.pi / 4) 1)
      (Sample.curveMpc.predictedState Sample.curve (1 / 10) 0 (fun _ => Real.pi / 4) 2) :=
  @prediction_trapezoidal ℝ _ _ _ _ Sample.bicycle (1 / 10) Sample.curveMpc Sample.curve 0
    (fun _ => Real.pi / 4) 1 rfl (show (0 : ℝ) < 3 / 10 by norm_num) (by norm_num) (by decide)

theorem nonneg_curve : Sample.curveMpc.param.Nonneg := by
  have h : Sample.curveWeight.Nonneg := by
    constructor <;> norm_num [Sample.curveWeight]
  exact ⟨h, h, by norm_num [Sample.curveMpc, Sample.curveWeight],
    by norm_num [Sample.curveMpc, Sample.curveWeight]⟩

theorem executeOptimization_follows_curve :
    ∃ u, Sample.curveMpc.executeOptimization (QPSolverEigenLeastSquareLLT.solve Llt.cramer)
        (Sample.curveMpc.generateMPCMatrix Sample.curve (1 / 10)) Sample.onCurve (1 / 10)
        Sample.curve 1 = some u ∧
      ∀ i < 2, u i = Real.pi / 4 := by
  have hdet : 1 * 1 ≤ ((Sample.curveMpc.generatedProblem Sample.curve (1 / 10) Sample.onCurve
      1).h.toMatrix 2 2).det := by
    refine sq_le_det_h rfl nonneg_curve zero_le_one fun i _ => ?_
    norm_num [inputWeight, getWeight, Sample.curveMpc, Sample.curveWeight, Sample.curve]
  have h : Sample.curveMpc.executeOptimization (QPSolverEigenLeastSquareLLT.solve Llt.cramer)
      (Sample.curveMpc.generateMPCMatrix Sample.curve (1 / 10)) Sample.onCurve (1 / 10)
      Sample.curve 1 = some fun i =>
        -Llt.cramer (Sample.curveMpc.generatedProblem Sample.curve (1 / 10) Sample.onCurve 1).h
          (Sample.curveMpc.generatedProblem Sample.curve (1 / 10) Sample.onCurve 1).f i := by
    refine if_neg ?_
    change ¬|((Sample.curveMpc.generatedProblem Sample.curve (1 / 10) Sample.onCurve
      1).h.toMatrix 2 2).det| < _
    rw [not_lt, abs_of_nonneg (by linarith)]
    norm_num at hdet ⊢
    linarith
  have ha : Trigonometry.atan (Sample.bicycle.wheelbase * (1 / 2 * Sample.curveMpc.signVx)) =
      Real.pi / 4 := by
    have h₁ : Sample.bicycle.wheelbase * (1 / 2 * Sample.curveMpc.signVx) = 1 := by
      norm_num [Sample.bicycle, Sample.curveMpc, signVx]
    rw [h₁]
    exact Real.arctan_one
  have hpos : 0 < Real.pi / 4 := by positivity
  have hlt := Real.pi_lt_d2
  have hgt := Real.pi_gt_three
  have hf := @executeOptimization_follows ℝ _ _ _ _ Sample.bicycle (1 / 10) 1 Sample.curveMpc
    Sample.curve Sample.onCurve _ (1 / 2) rfl (show (0 : ℝ) < 3 / 10 by norm_num) (by norm_num)
    (show (2 : ℝ) ≠ 0 by norm_num) Real.tan_arctan (fun _ _ => ⟨rfl, rfl⟩)
    (by
      rw [ha, abs_of_pos hpos]
      show Real.pi / 4 < 1
      linarith) Llt.cramer Llt.cramer_solves le_rfl nonneg_curve
    (.inl (by
      rw [ha, abs_of_pos hpos]
      norm_num [deg2rad, Sample.curveMpc]
      linarith))
    (by
      rw [ha]
      funext i
      fin_cases i <;> simp [MatrixXd.vec, Sample.onCurve, vector]) h
  rw [ha] at hf
  exact ⟨_, h, hf.1⟩

end MPC
end SafetyIsland.Mpc
