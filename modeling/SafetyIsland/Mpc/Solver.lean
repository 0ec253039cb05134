import SafetyIsland.Mpc.Cost
import SafetyIsland.Quadratic.Minimum

namespace SafetyIsland.Mpc

open Eigen MatrixXd Finset Matrix

section

variable {K : Type} [Field K] [LinearOrder K]

-- `h.llt().solve(f)`, where both have the rows of `h`.
abbrev Llt (K : Type) :=
  MatrixXd K → MatrixXd K → ℕ → K

-- What the Cholesky decomposition of a symmetric, positive definite matrix is documented to solve.
def Llt.Solves (llt : Llt K) : Prop :=
  ∀ (h f : MatrixXd K) (n : ℕ), h.rows = n → Symm n h →
    (∀ u, (∃ i < n, u i ≠ 0) → 0 < bilin n h u u) →
    ∀ i < n, apply n h (llt h f) i = f.coeff i 0

-- The bounds of the problem are not read.
def QPSolverEigenLeastSquareLLT.solve (llt : Llt K) (p : QpProblem K) : Option (ℕ → K) :=
  if |(p.h.toMatrix p.h.rows p.h.rows).det| < 1 / 10 ^ 9 then none
  else some fun i => -llt p.h p.f i

structure MPCWeight.Nonneg (w : MPCWeight K) : Prop where
  latError                : 0 ≤ w.latError
  headingError            : 0 ≤ w.headingError
  headingErrorSquaredVel  : 0 ≤ w.headingErrorSquaredVel
  steeringInput           : 0 ≤ w.steeringInput
  steeringInputSquaredVel : 0 ≤ w.steeringInputSquaredVel
  latJerk                 : 0 ≤ w.latJerk
  steerRate               : 0 ≤ w.steerRate
  steerAcc                : 0 ≤ w.steerAcc

-- The weights of the last point are those of the nominal weight.
structure MPCParam.Nonneg (p : MPCParam K) : Prop where
  nominal              : p.nominalWeight.Nonneg
  lowCurvature         : p.lowCurvatureWeight.Nonneg
  terminalLatError     : 0 ≤ p.nominalWeight.terminalLatError
  terminalHeadingError : 0 ≤ p.nominalWeight.terminalHeadingError

namespace MPC

variable {mpc : MPC K} {traj : MPCTrajectory K} {dt velocity : K} {x0 u v : ℕ → K} {i n : ℕ}

theorem nonneg_getWeight (hw : mpc.param.Nonneg) (curvature : K) :
    (mpc.getWeight curvature).Nonneg := by
  rw [getWeight]
  split_ifs
  · exact hw.lowCurvature
  · exact hw.nominal

theorem nonneg_latWeight (hw : mpc.param.Nonneg) : 0 ≤ mpc.latWeight traj i := by
  rw [latWeight]
  split_ifs
  · exact hw.terminalLatError
  · exact (nonneg_getWeight hw _).latError

theorem rows_generated_h : (mpc.generatedProblem traj dt x0 velocity).h.rows = mpc.horizon :=
  Nat.mul_one _

theorem cols_generated_h : (mpc.generatedProblem traj dt x0 velocity).h.cols = mpc.horizon :=
  Nat.mul_one _

theorem symm_generated_h : Symm n (mpc.generatedProblem traj dt x0 velocity).h := by
  intro i j _ _
  change (setLower _ _).coeff i j = (setLower _ _).coeff j i
  simp only [setLower, MatrixXd.transpose]
  split_ifs with hij hji
  · rw [le_antisymm hij hji]
  · rfl
  · rfl
  · omega

variable [IsStrictOrderedRing K]

theorem nonneg_headingWeight (hw : mpc.param.Nonneg) : 0 ≤ mpc.headingWeight traj i := by
  have hg := nonneg_getWeight hw (traj.k i * mpc.signVx)
  have hv := mul_nonneg (mul_self_nonneg (traj.vx i)) hg.headingErrorSquaredVel
  rw [headingWeight]
  split_ifs
  · exact add_nonneg hw.terminalHeadingError hv
  · exact add_nonneg hg.headingError hv

theorem nonneg_inputWeight (hw : mpc.param.Nonneg) : 0 ≤ mpc.inputWeight traj i := by
  have hg := nonneg_getWeight hw (traj.k i * mpc.signVx)
  exact add_nonneg hg.steeringInput (mul_nonneg (mul_self_nonneg _) hg.steeringInputSquaredVel)

theorem nonneg_steerSlope (hw : mpc.param.Nonneg) : 0 ≤ mpc.steerSlope dt 0 0 u u := by
  refine sum_nonneg fun i _ => add_nonneg ?_ ?_
  · rw [mul_assoc]
    exact mul_nonneg hw.nominal.steerRate (mul_self_nonneg _)
  · rw [mul_assoc]
    exact mul_nonneg hw.nominal.steerAcc (mul_self_nonneg _)

theorem nonneg_jerkForm (hw : mpc.param.Nonneg) : 0 ≤ mpc.jerkForm traj dt u u := by
  refine sum_nonneg fun i _ => ?_
  rw [mul_assoc]
  exact mul_nonneg (nonneg_getWeight hw _).latJerk (mul_self_nonneg _)

theorem nonneg_qex (hw : mpc.param.Nonneg) :
    0 ≤ bilin (2 * mpc.horizon) (mpc.generateMPCMatrix traj dt).qex u u := by
  change 0 ≤ bilin _ (mpc.predicted traj dt mpc.horizon).qex _ _
  rw [bilin_qex le_rfl]
  refine sum_nonneg fun i _ => ?_
  obtain ⟨h₀₀, h₀₁, h₁₀, h₁₁⟩ := @adaptiveQ_coeff _ _ _ mpc traj i
  have hl : 0 ≤ mpc.latWeight traj i * (u (i * 2) * u (i * 2)) :=
    mul_nonneg (nonneg_latWeight hw) (mul_self_nonneg _)
  have hh : 0 ≤ mpc.headingWeight traj i * (u (i * 2 + 1) * u (i * 2 + 1)) :=
    mul_nonneg (nonneg_headingWeight hw) (mul_self_nonneg _)
  simp only [bilin_eq_sum, sum_range_succ, range_zero, sum_empty, h₀₀, h₀₁, h₁₀, h₁₁, Nat.add_zero]
  linarith

section

variable (hN : 2 ≤ mpc.horizon)
include hN

omit [IsStrictOrderedRing K] in
theorem bilin_generated_r1ex : bilin mpc.horizon (mpc.generateMPCMatrix traj dt).r1ex u v =
    ∑ i ∈ range mpc.horizon, mpc.inputWeight traj i * (u i * v i) + mpc.steerSlope dt 0 0 u v := by
  rw [generated_r1ex, bilin_addSteerWeightR hN, bilin_r1ex le_rfl]
  simp only [adaptiveR_coeff]

theorem nonneg_generated_r1ex (hw : mpc.param.Nonneg) :
    0 ≤ bilin mpc.horizon (mpc.generateMPCMatrix traj dt).r1ex u u := by
  rw [bilin_generated_r1ex hN]
  refine add_nonneg (sum_nonneg fun i _ => ?_) (nonneg_steerSlope hw)
  exact mul_nonneg (nonneg_inputWeight hw) (mul_self_nonneg _)

theorem nonneg_h (hw : mpc.param.Nonneg) :
    0 ≤ bilin mpc.horizon (mpc.generatedProblem traj dt x0 velocity).h u u := by
  rw [bilin_h hN]
  exact add_nonneg (add_nonneg (nonneg_qex hw) (nonneg_generated_r1ex hN hw)) (nonneg_jerkForm hw)

end

theorem semidefinite_h (hN : 2 ≤ mpc.horizon) (hw : mpc.param.Nonneg) :
    Quadratic.Semidefinite
      ((mpc.generatedProblem traj dt x0 velocity).h.toMatrix mpc.horizon mpc.horizon) where
  symm   := by
    ext i j
    have h : Symm mpc.horizon (mpc.generatedProblem traj dt x0 velocity).h := symm_generated_h
    exact h j.2 i.2
  nonneg x := by
    have hx : MatrixXd.vec mpc.horizon (fun i => if h : i < mpc.horizon then x ⟨i, h⟩ else 0) = x := by
      funext i
      simp [MatrixXd.vec]
    rw [← hx]
    exact nonneg_h hN hw

omit [IsStrictOrderedRing K] in
theorem objective_generated : (mpc.generatedProblem traj dt x0 velocity).objective u =
    Quadratic.objective
      ((mpc.generatedProblem traj dt x0 velocity).h.toMatrix mpc.horizon mpc.horizon)
      (MatrixXd.vec mpc.horizon fun i => (mpc.generatedProblem traj dt x0 velocity).f.coeff i 0)
      (MatrixXd.vec mpc.horizon u) := by
  rw [Quadratic.objective, QpProblem.objective, cols_generated_h, ← bilin_eq_sum, bilin]
  congr 1
  exact sum_range fun i => (mpc.generatedProblem traj dt x0 velocity).f.coeff i 0 * u i

theorem solve_slope {llt : Llt K} (hl : llt.Solves) (hN : 2 ≤ mpc.horizon) (hw : mpc.param.Nonneg)
    (h : QPSolverEigenLeastSquareLLT.solve llt (mpc.generatedProblem traj dt x0 velocity) = some u) :
    let p := mpc.generatedProblem traj dt x0 velocity
    (p.h.toMatrix mpc.horizon mpc.horizon).det ≠ 0 ∧
      p.h.toMatrix mpc.horizon mpc.horizon *ᵥ MatrixXd.vec mpc.horizon u =
        -MatrixXd.vec mpc.horizon fun i => p.f.coeff i 0 := by
  intro p
  have hs : Quadratic.Semidefinite (p.h.toMatrix mpc.horizon mpc.horizon) := semidefinite_h hN hw
  rw [QPSolverEigenLeastSquareLLT.solve, rows_generated_h] at h
  split_ifs at h with hd
  obtain rfl := Option.some.inj h
  have hdet : (p.h.toMatrix mpc.horizon mpc.horizon).det ≠ 0 := by
    intro h₀
    apply hd
    change |(p.h.toMatrix mpc.horizon mpc.horizon).det| < _
    rw [h₀, abs_zero]
    positivity
  have hpos : ∀ u : ℕ → K, (∃ i < mpc.horizon, u i ≠ 0) → 0 < bilin mpc.horizon p.h u u := by
    rintro u ⟨i, hi, hne⟩
    refine hs.pos hdet fun h₀ => hne ?_
    exact congrFun h₀ ⟨i, hi⟩
  have he := hl p.h p.f mpc.horizon rows_generated_h symm_generated_h hpos
  refine ⟨hdet, ?_⟩
  funext i
  rw [← vec_apply]
  simp only [MatrixXd.vec, apply, mul_neg, sum_neg_distrib, Pi.neg_apply, neg_inj]
  exact he i i.2

-- The optimisation returns the one minimum of its objective over all sequences of steering angles.
theorem executeOptimization_minimizes {llt : Llt K} (hl : llt.Solves) (hN : 2 ≤ mpc.horizon)
    (hw : mpc.param.Nonneg)
    (h : mpc.executeOptimization (QPSolverEigenLeastSquareLLT.solve llt)
      (mpc.generateMPCMatrix traj dt) x0 dt traj velocity = some u) (v : ℕ → K) :
    (mpc.generatedProblem traj dt x0 velocity).objective u ≤
      (mpc.generatedProblem traj dt x0 velocity).objective v ∧
    ((mpc.generatedProblem traj dt x0 velocity).objective v ≤
      (mpc.generatedProblem traj dt x0 velocity).objective u → ∀ i < mpc.horizon, v i = u i) := by
  have hs : Quadratic.Semidefinite
      ((mpc.generatedProblem traj dt x0 velocity).h.toMatrix mpc.horizon mpc.horizon) :=
    semidefinite_h hN hw
  obtain ⟨hd, hx⟩ := solve_slope hl hN hw h
  rw [objective_generated, objective_generated]
  refine ⟨hs.objective_le hx _, fun hv i hi => ?_⟩
  exact congrFun (hs.eq_of_objective_le hd hx hv) ⟨i, hi⟩

end MPC

-- The solution by Cramer's rule.
def Llt.cramer : Llt K :=
  fun h f i => if hi : i < h.rows then
    (h.toMatrix h.rows h.rows).det⁻¹ *
      (h.toMatrix h.rows h.rows).cramer (MatrixXd.vec h.rows fun j => f.coeff j 0) ⟨i, hi⟩ else 0

theorem Llt.cramer_solves : (Llt.cramer : Llt K).Solves := by
  rintro h f n rfl _ hpos i hi
  have hd : (h.toMatrix h.rows h.rows).det ≠ 0 := by
    intro h₀
    obtain ⟨v, hv, hz⟩ := exists_mulVec_eq_zero_iff.mpr h₀
    obtain ⟨j, hj⟩ := Function.ne_iff.mp hv
    have he : MatrixXd.vec h.rows (fun i => if hi : i < h.rows then v ⟨i, hi⟩ else 0) = v := by
      funext i
      simp [MatrixXd.vec]
    have hp := hpos (fun i => if hi : i < h.rows then v ⟨i, hi⟩ else 0) ⟨j, j.2, by simpa using hj⟩
    rw [bilin, he, hz, dotProduct_zero] at hp
    exact lt_irrefl _ hp
  have hv : MatrixXd.vec h.rows (Llt.cramer h f) = (h.toMatrix h.rows h.rows).det⁻¹ •
      (h.toMatrix h.rows h.rows).cramer (MatrixXd.vec h.rows fun j => f.coeff j 0) := by
    funext i
    simp [MatrixXd.vec, Llt.cramer]
  have ha : apply h.rows h (Llt.cramer h f) i =
      (h.toMatrix h.rows h.rows *ᵥ MatrixXd.vec h.rows (Llt.cramer h f)) ⟨i, hi⟩ :=
    congrFun vec_apply ⟨i, hi⟩
  rw [hv, mulVec_smul, mulVec_cramer, smul_smul, inv_mul_cancel₀ hd, one_smul] at ha
  exact ha

end

namespace MPC

theorem nonneg_sample : Sample.mpc.param.Nonneg :=
  have h : Sample.weight.Nonneg := by constructor <;> decide +kernel
  ⟨h, h, by decide +kernel, by decide +kernel⟩

theorem executeOptimization_minimizes_straight :
    ∃ u, Sample.mpc.executeOptimization (QPSolverEigenLeastSquareLLT.solve Llt.cramer)
        (Sample.mpc.generateMPCMatrix Sample.traj (1 / 10)) 1 (1 / 10) Sample.traj 1 = some u ∧
      (Sample.mpc.generatedProblem Sample.traj (1 / 10) 1 1).objective u ≤
        (Sample.mpc.generatedProblem Sample.traj (1 / 10) 1 1).objective 0 := by
  have h : Sample.mpc.executeOptimization (QPSolverEigenLeastSquareLLT.solve Llt.cramer)
      (Sample.mpc.generateMPCMatrix Sample.traj (1 / 10)) 1 (1 / 10) Sample.traj 1 =
        some fun i => -Llt.cramer (Sample.mpc.generatedProblem Sample.traj (1 / 10) 1 1).h
          (Sample.mpc.generatedProblem Sample.traj (1 / 10) 1 1).f i := by
    refine if_neg ?_
    change ¬|((Sample.mpc.generatedProblem Sample.traj (1 / 10) 1 1).h.toMatrix 2 2).det| < _
    rw [det_fin_two]
    decide +kernel
  exact ⟨_, h, (executeOptimization_minimizes Llt.cramer_solves le_rfl nonneg_sample h 0).1⟩

end MPC
end SafetyIsland.Mpc
