import Mathlib.Tactic.LinearCombination
import SafetyIsland.Mpc.Penalty
import SafetyIsland.Mpc.Prediction

namespace SafetyIsland.Mpc.MPC

open Eigen MatrixXd Finset

section

variable {K : Type} [Field K] [LinearOrder K]
variable (mpc : MPC K) (traj : MPCTrajectory K) (dt : K) (x0 : ℕ → K)

def trackingCost (u : ℕ → K) : K :=
  ∑ i ∈ range mpc.horizon,
    (mpc.latWeight traj i * mpc.outputAt traj dt x0 u i 0 ^ 2 +
      mpc.headingWeight traj i * mpc.outputAt traj dt x0 u i 1 ^ 2)

def inputCost (u : ℕ → K) : K :=
  ∑ i ∈ range mpc.horizon, mpc.inputWeight traj i * (u i - mpc.referenceInput traj i) ^ 2

-- The documented cost, at the scale of the solver's `1/2 * U' * H * U`.
def documentedCost (u : ℕ → K) : K :=
  1 / 2 * (mpc.trackingCost traj dt x0 u + mpc.inputCost traj u + mpc.jerkForm traj dt u u +
    mpc.steerPenalty dt mpc.rawSteerCmdPrev mpc.rawSteerCmdPprev u)

def generatedProblem (currentVelocity : K) : QpProblem K :=
  mpc.qpProblem (mpc.generateMPCMatrix traj dt) x0 dt traj currentVelocity

def withCommands (prev pprev : K) : MPC K :=
  { mpc with rawSteerCmdPrev := prev, rawSteerCmdPprev := pprev }

end

section

variable {K : Type} [Field K] [LinearOrder K]
variable {mpc : MPC K} {traj : MPCTrajectory K} {dt velocity : K} {x0 u : ℕ → K} {n i p : ℕ}

def freeOutputs (mpc : MPC K) (m : MPCMatrix K) (x0 : ℕ → K) : MatrixXd K :=
  m.cex * (m.aex * column mpc.vehicleModel.dimX x0 + m.wex)

structure Sized (mpc : MPC K) (m : MPCMatrix K) : Prop where
  aex  : m.aex.cols = mpc.vehicleModel.dimX
  cex  : m.cex.rows = 2 * mpc.horizon ∧ m.cex.cols = mpc.vehicleModel.dimX * mpc.horizon
  bex  : m.bex.cols = mpc.horizon
  qex  : m.qex.cols = 2 * mpc.horizon
  uref : m.urefEx.rows = mpc.horizon ∧ m.urefEx.cols = 1

theorem sized_predicted : mpc.Sized (mpc.predicted traj dt n) := by
  induction n with
  | zero =>
    exact ⟨rfl, ⟨rfl, rfl⟩, Nat.one_mul _, rfl, Nat.one_mul _, rfl⟩
  | succ n ih =>
    have hb : ∀ (ad bex : MatrixXd K) (l : List ℕ) (d i : ℕ),
        (l.foldl (carryInput ad d i) bex).cols = bex.cols := by
      intro ad bex l d i
      induction l generalizing bex with
      | nil         => rfl
      | cons j l ih => exact ih _
    constructor
    · rw [predicted_succ_aex]
      exact ih.aex
    · rw [predicted_succ_cex]
      exact ih.cex
    · rw [predicted_succ_bex]
      exact (hb ..).trans ih.bex
    · rw [predicted_succ_qex]
      exact ih.qex
    · rw [predicted_succ_urefEx]
      exact ih.uref

theorem apply_outputs (hi : i < mpc.horizon) (hp : p < 2) :
    apply mpc.horizon ((mpc.generateMPCMatrix traj dt).cex * (mpc.generateMPCMatrix traj dt).bex) u
      (i * 2 + p) + (mpc.freeOutputs (mpc.generateMPCMatrix traj dt) x0).coeff (i * 2 + p) 0 =
    mpc.outputAt traj dt x0 u i p := by
  have hs : mpc.Sized (mpc.predicted traj dt mpc.horizon) := sized_predicted
  show apply mpc.horizon ((mpc.predicted traj dt mpc.horizon).cex *
    (mpc.predicted traj dt mpc.horizon).bex) u (i * 2 + p) +
    (mpc.freeOutputs (mpc.predicted traj dt mpc.horizon) x0).coeff (i * 2 + p) 0 = _
  have hf : (mpc.freeOutputs (mpc.predicted traj dt mpc.horizon) x0).coeff (i * 2 + p) 0 =
      apply (mpc.vehicleModel.dimX * mpc.horizon) (mpc.predicted traj dt mpc.horizon).cex
        (fun q => apply mpc.vehicleModel.dimX (mpc.predicted traj dt mpc.horizon).aex x0 q +
          (mpc.predicted traj dt mpc.horizon).wex.coeff q 0) (i * 2 + p) := by
    rw [freeOutputs, mul_coeff, hs.cex.2]
    simp only [add_coeff, mul_coeff, hs.aex]
    rfl
  rw [hf, apply_mul hs.cex.2, apply_cex hp le_rfl hi, apply_cex hp le_rfl hi, outputAt,
    ←sum_add_distrib]
  apply sum_congr rfl
  intro r hr
  rw [←stateRow_predicted (mem_range.mp hr) le_rfl hi, stateRow]
  ring

def outputs (mpc : MPC K) (traj : MPCTrajectory K) (dt : K) (x0 u : ℕ → K) : ℕ → K :=
  apply mpc.horizon ((mpc.generateMPCMatrix traj dt).cex * (mpc.generateMPCMatrix traj dt).bex) u +
    fun k => (mpc.freeOutputs (mpc.generateMPCMatrix traj dt) x0).coeff k 0

-- What the documented cost charges whatever the inputs are.
def constantTerm (mpc : MPC K) (traj : MPCTrajectory K) (dt : K) (x0 : ℕ → K) : K :=
  1 / 2 * (bilin (2 * mpc.horizon) (mpc.generateMPCMatrix traj dt).qex
      (fun k => (mpc.freeOutputs (mpc.generateMPCMatrix traj dt) x0).coeff k 0)
      (fun k => (mpc.freeOutputs (mpc.generateMPCMatrix traj dt) x0).coeff k 0) +
    bilin mpc.horizon (mpc.predicted traj dt mpc.horizon).r1ex (mpc.referenceInput traj)
      (mpc.referenceInput traj) +
    mpc.steerPenalty dt mpc.rawSteerCmdPrev mpc.rawSteerCmdPprev 0)

theorem trackingCost_eq :
    bilin (2 * mpc.horizon) (mpc.generateMPCMatrix traj dt).qex (mpc.outputs traj dt x0 u)
      (mpc.outputs traj dt x0 u) = mpc.trackingCost traj dt x0 u := by
  show bilin _ (mpc.predicted traj dt mpc.horizon).qex _ _ = _
  rw [bilin_qex le_rfl]
  apply sum_congr rfl
  intro i hi
  have ⟨h₀₀, h₀₁, h₁₀, h₁₁⟩ := @adaptiveQ_coeff _ _ _ mpc traj i
  have ho (p : ℕ) (hp : p < 2) :
      mpc.outputs traj dt x0 u (i * 2 + p) = mpc.outputAt traj dt x0 u i p :=
    apply_outputs (mem_range.mp hi) hp
  simp only [bilin_eq_sum, sum_range_succ, range_zero, sum_empty, ho 0 (by omega), ho 1 (by omega),
    h₀₀, h₀₁, h₁₀, h₁₁]
  ring

theorem inputCost_eq :
    bilin mpc.horizon (mpc.predicted traj dt mpc.horizon).r1ex (u - mpc.referenceInput traj)
      (u - mpc.referenceInput traj) = mpc.inputCost traj u := by
  rw [bilin_r1ex le_rfl]
  apply sum_congr rfl
  intro i _
  rw [adaptiveR_coeff, Pi.sub_apply]
  ring

theorem generated_r1ex : (mpc.generateMPCMatrix traj dt).r1ex =
    mpc.addSteerWeightR dt (mpc.predicted traj dt mpc.horizon).r1ex := rfl

theorem generated_r2ex : (mpc.generateMPCMatrix traj dt).r2ex =
    mpc.addLateralJerk traj dt mpc.zeroMatrices.r2ex :=
  congrArg (mpc.addLateralJerk traj dt) predicted_r2ex

theorem bilin_r2ex : bilin mpc.horizon (mpc.generateMPCMatrix traj dt).r2ex u u =
    mpc.jerkForm traj dt u u := by
  rw [generated_r2ex, bilin_addLateralJerk]
  simp [bilin_eq_sum, zeroMatrices]

theorem sized_generated : mpc.Sized (mpc.generateMPCMatrix traj dt) :=
  have h : mpc.Sized (mpc.predicted traj dt mpc.horizon) := sized_predicted
  ⟨h.aex, h.cex, h.bex, h.qex, h.uref⟩

def cb (mpc : MPC K) (traj : MPCTrajectory K) (dt : K) : MatrixXd K :=
  (mpc.generateMPCMatrix traj dt).cex * (mpc.generateMPCMatrix traj dt).bex

theorem cb_rows : (mpc.cb traj dt).rows = 2 * mpc.horizon :=
  sized_generated.cex.1

section

omit [LinearOrder K]

theorem addSteerWeightF_of_row {f : MatrixXd K} (h : f.rows < 2) : mpc.addSteerWeightF dt f = f :=
  if_pos h

-- A row vector has one row, so no term of the previous commands is ever added.
theorem linearTerms_eq (m : MPCMatrix K) (x0 : ℕ → K) :
    mpc.linearTerms m x0 dt =
      (mpc.freeOutputs m x0).transpose * (m.qex * (m.cex * m.bex)) -
        m.urefEx.transpose * m.r1ex :=
  addSteerWeightF_of_row (Nat.lt_succ_self 1)

end

theorem f_coeff (i : ℕ) : (mpc.generatedProblem traj dt x0 velocity).f.coeff i 0 =
    ∑ k ∈ range (2 * mpc.horizon),
      (mpc.freeOutputs (mpc.generateMPCMatrix traj dt) x0).coeff k 0 *
        ((mpc.generateMPCMatrix traj dt).qex * mpc.cb traj dt).coeff k i -
    ∑ k ∈ range mpc.horizon, (mpc.generateMPCMatrix traj dt).urefEx.coeff k 0 *
      (mpc.generateMPCMatrix traj dt).r1ex.coeff k i := by
  have hs := @sized_generated _ _ _ mpc traj dt
  show (mpc.linearTerms (mpc.generateMPCMatrix traj dt) x0 dt).coeff 0 i = _
  rw [linearTerms_eq, sub_coeff, mul_coeff, mul_coeff]
  congr 1
  · rw [show (mpc.freeOutputs (mpc.generateMPCMatrix traj dt) x0).transpose.cols =
      2 * mpc.horizon from hs.cex.1]
    rfl
  · rw [show (mpc.generateMPCMatrix traj dt).urefEx.transpose.cols = mpc.horizon from hs.uref.1]
    rfl

theorem sum_f : ∑ i ∈ range mpc.horizon,
    (mpc.generatedProblem traj dt x0 velocity).f.coeff i 0 * u i =
    bilin (2 * mpc.horizon) (mpc.generateMPCMatrix traj dt).qex
      (fun k => (mpc.freeOutputs (mpc.generateMPCMatrix traj dt) x0).coeff k 0)
      (apply mpc.horizon (mpc.cb traj dt) u) -
    bilin mpc.horizon (mpc.generateMPCMatrix traj dt).r1ex (mpc.referenceInput traj) u := by
  have hr : ∀ k ∈ range mpc.horizon, (mpc.generateMPCMatrix traj dt).urefEx.coeff k 0 *
      apply mpc.horizon (mpc.generateMPCMatrix traj dt).r1ex u k =
      mpc.referenceInput traj k * apply mpc.horizon (mpc.generateMPCMatrix traj dt).r1ex u k := by
    intro k hk
    exact congrArg (· * _) (urefEx_coeff (mem_range.mp hk))
  rw [←sum_mul_apply, ←sum_mul_apply, ←apply_mul sized_generated.qex, ←sum_congr rfl hr]
  simp only [f_coeff, sub_mul, sum_sub_distrib, apply, sum_mul, mul_sum]
  congr 1 <;> rw [sum_comm] <;> simp only [mul_assoc]

theorem withCommands_f (prev pprev : K) :
    ((mpc.withCommands prev pprev).generatedProblem traj dt x0 velocity).f =
      (mpc.generatedProblem traj dt x0 velocity).f := by
  show ((mpc.withCommands prev pprev).linearTerms _ x0 dt).transpose =
    (mpc.linearTerms _ x0 dt).transpose
  rw [linearTerms_eq, linearTerms_eq]
  rfl

section Problem

variable (hN : 2 ≤ mpc.horizon)
include hN

theorem symm_generated_r1ex : Symm mpc.horizon (mpc.generateMPCMatrix traj dt).r1ex :=
  symm_addSteerWeightR hN $ symm_r1ex le_rfl

theorem symm_generated : Symm mpc.horizon
    ((mpc.cb traj dt).transpose * ((mpc.generateMPCMatrix traj dt).qex * mpc.cb traj dt) +
      ((mpc.generateMPCMatrix traj dt).r1ex + (mpc.generateMPCMatrix traj dt).r2ex)) := by
  apply Symm.add
  · exact (symm_qex le_rfl).conj sized_generated.cex.1 sized_generated.qex
  · apply (symm_generated_r1ex hN).add
    rw [generated_r2ex]
    exact symm_addLateralJerk fun _ _ _ _ => rfl

theorem bilin_h : bilin mpc.horizon (mpc.generatedProblem traj dt x0 velocity).h u u =
    bilin (2 * mpc.horizon) (mpc.generateMPCMatrix traj dt).qex
      (apply mpc.horizon (mpc.cb traj dt) u) (apply mpc.horizon (mpc.cb traj dt) u) +
    bilin mpc.horizon (mpc.generateMPCMatrix traj dt).r1ex u u + mpc.jerkForm traj dt u u := by
  have hs := @symm_generated _ _ _ mpc traj dt hN
  rw [generatedProblem, qpProblem, hs.bilin_setLower, bilin_add, bilin_add,
    bilin_conj cb_rows sized_generated.qex, bilin_r2ex, add_assoc]
  intro i j hij
  simp [setUpper, hij, cb]

theorem objective_eq [IsStrictOrderedRing K] :
    (mpc.generatedProblem traj dt x0 velocity).objective u =
      mpc.documentedCost traj dt x0 u -
        mpc.steerSlope dt mpc.rawSteerCmdPrev mpc.rawSteerCmdPprev (mpc.referenceInput traj) u -
        mpc.constantTerm traj dt x0 := by
  have ho : (mpc.generatedProblem traj dt x0 velocity).objective u =
      1 / 2 * bilin mpc.horizon (mpc.generatedProblem traj dt x0 velocity).h u u +
        ∑ i ∈ range mpc.horizon, (mpc.generatedProblem traj dt x0 velocity).f.coeff i 0 * u i := by
    rw [bilin_eq_sum, QpProblem.objective,
      show (mpc.generatedProblem traj dt x0 velocity).h.cols = mpc.horizon from Nat.mul_one _]
  have hq : Symm (2 * mpc.horizon) (mpc.generateMPCMatrix traj dt).qex := symm_qex le_rfl
  have hr : Symm mpc.horizon (mpc.predicted traj dt mpc.horizon).r1ex := symm_r1ex le_rfl
  rw [ho, bilin_h hN, sum_f, documentedCost, ←trackingCost_eq, ←inputCost_eq, outputs,
    hq.bilin_self_add, hr.bilin_self_sub, generated_r1ex, bilin_addSteerWeightR hN,
    bilin_addSteerWeightR hN, steerPenalty_eq _ _ _ (mpc.referenceInput traj)]
  simp only [cb, constantTerm]
  ring

-- The solver minimises the documented cost exactly when the penalties have no slope at the
-- reference inputs, and its linear terms never depend on the previous commands.
theorem objective_is_documented_iff [IsStrictOrderedRing K] :
    ((∃ κ, ∀ u, (mpc.generatedProblem traj dt x0 velocity).objective u -
        mpc.documentedCost traj dt x0 u = κ) ↔
      ∀ v, mpc.steerSlope dt mpc.rawSteerCmdPrev mpc.rawSteerCmdPprev
        (mpc.referenceInput traj) v = 0) ∧
    ∀ prev pprev, ((mpc.withCommands prev pprev).generatedProblem traj dt x0 velocity).f =
      (mpc.generatedProblem traj dt x0 velocity).f := by
  refine ⟨⟨?mp, ?mpr⟩, withCommands_f⟩
  case mp =>
    intro ⟨κ, hκ⟩ v
    have hv := hκ v
    have h₀ := hκ 0
    rw [objective_eq hN] at hv h₀
    rw [steerSlope_zero] at h₀
    linear_combination h₀ - hv
  case mpr =>
    intro h
    exists -mpc.constantTerm traj dt x0
    intro u
    rw [objective_eq hN, h u, sub_zero, sub_sub_cancel_left]

end Problem
end

namespace Sample

def weight : MPCWeight ℚ where
  latError                := 1
  headingError            := 0
  headingErrorSquaredVel  := 3 / 10
  terminalLatError        := 1
  terminalHeadingError    := 1 / 10
  steeringInput           := 1
  steeringInputSquaredVel := 1 / 4
  latJerk                 := 1 / 10
  steerRate               := 0
  steerAcc                := 1 / 10 ^ 6

def straight : Discrete ℚ where
  ad r c := if r = c then 1 else if r = 0 ∧ c = 1 then 1 / 10 else 0
  bd r   := if r = 0 then 1 / 400 else 1 / 20
  cd r c := if r = c then 1 else 0
  wd _   := 0

-- The default weights and control period, after a step of the commands from 0 to 0.1 rad.
def mpc : MPC ℚ where
  param :=
    { predictionHorizon           := 2
      zeroFfSteerDeg              := 1 / 2
      nominalWeight               := weight
      lowCurvatureWeight          := weight
      lowCurvatureThreshCurvature := 0 }
  vehicleModel :=
    { dimX                    := 2
      calculateDiscreteMatrix := fun _ _ _ => straight
      calculateReferenceInput := fun _ _ => 0 }
  isForwardShift             := true
  ctrlPeriod                 := 3 / 20
  steerLim                   := 7 / 10
  rawSteerCmdPrev            := 1 / 10
  rawSteerCmdPprev           := 0
  steerRateLimMapByCurvature := [(1 / 1000, 7 / 10)]
  steerRateLimMapByVelocity  := [(10, 1)]

def traj : MPCTrajectory ℚ where
  vx _      := 1
  k _       := 0
  smoothK _ := 0

end Sample

theorem objective_is_documented_iff_straight :
    ((∃ κ, ∀ u, (Sample.mpc.generatedProblem Sample.traj (1 / 10) 0 1).objective u -
        Sample.mpc.documentedCost Sample.traj (1 / 10) 0 u = κ) ↔
      ∀ v, Sample.mpc.steerSlope (1 / 10) (1 / 10) 0 (Sample.mpc.referenceInput Sample.traj) v = 0) ∧
    ∀ prev pprev, ((Sample.mpc.withCommands prev pprev).generatedProblem Sample.traj (1 / 10) 0 1).f =
      (Sample.mpc.generatedProblem Sample.traj (1 / 10) 0 1).f :=
  objective_is_documented_iff (show 2 ≤ Sample.mpc.horizon from le_rfl)

-- With a positive weight of the acceleration, the solver is given another cost than the documented
-- one, and it is given the same linear terms whatever the commands were.
theorem objective_misses_penalties :
    0 < Sample.mpc.param.nominalWeight.steerAcc ∧
    (¬∃ κ, ∀ u, (Sample.mpc.generatedProblem Sample.traj (1 / 10) 0 1).objective u -
        Sample.mpc.documentedCost Sample.traj (1 / 10) 0 u = κ) ∧
    ((Sample.mpc.withCommands 0 0).generatedProblem Sample.traj (1 / 10) 0 1).f =
      (Sample.mpc.generatedProblem Sample.traj (1 / 10) 0 1).f := by
  refine ⟨by decide +kernel, ?_, withCommands_f 0 0⟩
  intro ⟨κ, h⟩
  have hd : (Sample.mpc.generatedProblem Sample.traj (1 / 10) 0 1).objective 1 -
      Sample.mpc.documentedCost Sample.traj (1 / 10) 0 1 ≠
      (Sample.mpc.generatedProblem Sample.traj (1 / 10) 0 1).objective 0 -
      Sample.mpc.documentedCost Sample.traj (1 / 10) 0 0 := by
    decide +kernel
  exact hd ((h 1).trans (h 0).symm)

end SafetyIsland.Mpc.MPC
