import Mathlib.Tactic.FinCases
import SafetyIsland.Mpc.Optimization

namespace SafetyIsland.Mpc.MPC

open Eigen MatrixXd Finset

variable {K : Type} [Field K]
variable {mpc : MPC K} {traj : MPCTrajectory K} {dt : K} {u v r : ℕ → K} {m : MatrixXd K} {n : ℕ}

-- The steering rate and the steering acceleration at the `i`-th step of the horizon, of which the
-- first two are taken against the previous commands.
def steerRate (mpc : MPC K) (dt prev : K) (u : ℕ → K) : ℕ → K
  | 0     => (u 0 - prev) / mpc.ctrlPeriod
  | i + 1 => (u (i + 1) - u i) / dt

def steerAcc (mpc : MPC K) (dt prev pprev : K) (u : ℕ → K) : ℕ → K
  | 0     => (mpc.steerRate dt prev u 0 - (prev - pprev) / mpc.ctrlPeriod) / mpc.ctrlPeriod
  | i + 1 => (mpc.steerRate dt prev u (i + 1) - mpc.steerRate dt prev u i) / dt

-- How the penalties of the rate and the acceleration change at `u` in the direction `v`.
def steerSlope (mpc : MPC K) (dt prev pprev : K) (u v : ℕ → K) : K :=
  ∑ i ∈ range mpc.horizon,
    (mpc.param.nominalWeight.steerRate * mpc.steerRate dt prev u i * mpc.steerRate dt 0 v i +
      mpc.param.nominalWeight.steerAcc * mpc.steerAcc dt prev pprev u i *
        mpc.steerAcc dt 0 0 v i)

-- The penalties as they are documented.
def steerPenalty (mpc : MPC K) (dt prev pprev : K) (u : ℕ → K) : K :=
  ∑ i ∈ range mpc.horizon,
    (mpc.param.nominalWeight.steerRate * mpc.steerRate dt prev u i ^ 2 +
      mpc.param.nominalWeight.steerAcc * mpc.steerAcc dt prev pprev u i ^ 2)

theorem steerRate_eq (dt prev : K) (u : ℕ → K) (i : ℕ) :
    mpc.steerRate dt prev u i = mpc.steerRate dt 0 u i + mpc.steerRate dt prev 0 i := by
  cases i <;> simp only [steerRate, Pi.zero_apply] <;> ring

theorem steerAcc_eq (dt prev pprev : K) (u : ℕ → K) (i : ℕ) :
    mpc.steerAcc dt prev pprev u i = mpc.steerAcc dt 0 0 u i + mpc.steerAcc dt prev pprev 0 i := by
  cases i with
  | zero   => simp only [steerAcc, steerRate_eq dt prev u]; ring
  | succ i => simp only [steerAcc, steerRate_eq dt prev u]; ring

theorem steerPenalty_eq (dt prev pprev : K) (r u : ℕ → K) :
    mpc.steerPenalty dt prev pprev u =
      mpc.steerSlope dt 0 0 u u +
        2 * (mpc.steerSlope dt prev pprev r u - mpc.steerSlope dt 0 0 r u) +
        mpc.steerPenalty dt prev pprev 0 := by
  simp only [steerPenalty, steerSlope, mul_sum, ←sum_add_distrib, ←sum_sub_distrib]
  apply sum_congr rfl
  intro i _
  rw [steerRate_eq dt prev u, steerAcc_eq dt prev pprev u, steerRate_eq dt prev r,
    steerAcc_eq dt prev pprev r]
  ring

theorem steerSlope_zero (dt prev pprev : K) (u : ℕ → K) : mpc.steerSlope dt prev pprev u 0 = 0 := by
  have hr (i : ℕ) : mpc.steerRate dt 0 0 i = 0 := by cases i <;> simp [steerRate]
  have ha (i : ℕ) : mpc.steerAcc dt 0 0 0 i = 0 := by cases i <;> simp [steerAcc, hr]
  simp [steerSlope, hr, ha]

section Blocks

variable (hN : 2 ≤ mpc.horizon)
include hN

theorem bilin_addSteerRateR :
    bilin mpc.horizon (mpc.addSteerRateR dt m) u v =
      bilin mpc.horizon m u v + ∑ i ∈ range mpc.horizon, mpc.param.nominalWeight.steerRate *
        mpc.steerRate dt 0 u i * mpc.steerRate dt 0 v i := by
  have ⟨n, hn⟩ := Nat.exists_eq_add_of_le' hN
  simp only [addSteerRateR, hn]
  rw [if_pos (by omega), bilin_addAt (by omega) (by omega),
    bilin_foldl_addBlock (p := 2) (fun _ => rfl) (fun _ => rfl) (by omega), sum_range_succ',
    ←add_assoc]
  congr 1
  · congr 1
    apply sum_congr rfl
    intro i _
    rw [bilin_smul, bilin_two]
    simp only [Nat.add_zero, steerRate]
    ring
  · simp only [steerRate]
    ring

theorem bilin_addSteerAccR :
    bilin mpc.horizon (mpc.addSteerAccR dt m) u v =
      bilin mpc.horizon m u v + ∑ i ∈ range mpc.horizon, mpc.param.nominalWeight.steerAcc *
        mpc.steerAcc dt 0 0 u i * mpc.steerAcc dt 0 0 v i := by
  have ⟨n, hn⟩ := Nat.exists_eq_add_of_le' hN
  simp only [addSteerAccR, hn]
  rw [if_pos (by omega), bilin_addAt (by omega) (by omega), bilin_addAt (by omega) (by omega),
    bilin_addAt (by omega) (by omega), bilin_addAt (by omega) (by omega),
    bilin_addAt (by omega) (by omega), List.range'_eq_map_range, List.foldl_map]
  simp only [Nat.add_sub_cancel_left, Nat.add_sub_cancel]
  rw [bilin_foldl_addBlock (p := 3) (fun _ => rfl) (fun _ => rfl) (by omega), sum_range_succ',
    sum_range_succ']
  have hs : ∑ i ∈ range n, bilin 3 ((MatrixXd.of !![1, -2, 1; -2, 4, -2; 1, -2, 1]).smul
      (mpc.param.nominalWeight.steerAcc / dt ^ 4)) (fun j => u (i + j)) (fun j => v (i + j)) =
      ∑ i ∈ range n, mpc.param.nominalWeight.steerAcc * mpc.steerAcc dt 0 0 u (i + 1 + 1) *
        mpc.steerAcc dt 0 0 v (i + 1 + 1) := by
    apply sum_congr rfl
    intro i _
    rw [bilin_smul, bilin_three]
    simp only [Nat.add_zero, steerAcc, steerRate]
    ring
  rw [hs]
  simp only [steerAcc, steerRate]
  ring

theorem bilin_addSteerWeightR :
    bilin mpc.horizon (mpc.addSteerWeightR dt m) u v =
      bilin mpc.horizon m u v + mpc.steerSlope dt 0 0 u v := by
  rw [addSteerWeightR, bilin_addSteerAccR hN, bilin_addSteerRateR hN, steerSlope, add_assoc,
    ←sum_add_distrib]

theorem symm_addSteerRateR (h : Symm mpc.horizon m) :
    Symm mpc.horizon (mpc.addSteerRateR dt m) := by
  simp only [addSteerRateR]
  rw [if_pos (by omega)]
  apply Symm.addAt_self
  apply h.foldl_addBlock (p := 2) (fun _ => rfl) (fun _ => rfl)
  intro i
  apply Symm.smul
  apply symm_of_transpose
  ext i j
  fin_cases i <;> fin_cases j <;> rfl

theorem symm_addSteerAccR (h : Symm mpc.horizon m) :
    Symm mpc.horizon (mpc.addSteerAccR dt m) := by
  simp only [addSteerAccR]
  rw [if_pos (by omega), List.range'_eq_map_range, List.foldl_map]
  simp only [Nat.add_sub_cancel_left]
  apply Symm.addAt_self
  apply Symm.addAt_self
  apply Symm.addAt_pair
  apply Symm.addAt_self
  apply h.foldl_addBlock (p := 3) (fun _ => rfl) (fun _ => rfl)
  intro i
  apply Symm.smul
  apply symm_of_transpose
  ext i j
  fin_cases i <;> fin_cases j <;> rfl

theorem symm_addSteerWeightR (h : Symm mpc.horizon m) :
    Symm mpc.horizon (mpc.addSteerWeightR dt m) :=
  symm_addSteerAccR hN $ symm_addSteerRateR hN h

end Blocks

section Jerk

variable [LinearOrder K]

-- The weight of the lateral jerk, `(v * (u(i) - u(i-1)) / dt)^2`.
def jerkForm (mpc : MPC K) (traj : MPCTrajectory K) (dt : K) (u v : ℕ → K) : K :=
  ∑ i ∈ range (mpc.horizon - 1), (mpc.getWeight (traj.k i * mpc.signVx)).latJerk *
    (traj.vx i * (u (i + 1) - u i) / dt) * (traj.vx i * (v (i + 1) - v i) / dt)

theorem bilin_addLateralJerk :
    bilin mpc.horizon (mpc.addLateralJerk traj dt m) u v =
      bilin mpc.horizon m u v + mpc.jerkForm traj dt u v := by
  rw [addLateralJerk, bilin_foldl_addBlock (p := 2) (fun _ => rfl) (fun _ => rfl) (by omega)]
  congr 1
  apply sum_congr rfl
  intro i _
  rw [bilin_two]
  simp only [Nat.add_zero]
  ring

theorem symm_addLateralJerk (h : Symm mpc.horizon m) :
    Symm mpc.horizon (mpc.addLateralJerk traj dt m) := by
  apply h.foldl_addBlock (p := 2) (fun _ => rfl) (fun _ => rfl)
  intro i
  apply symm_of_transpose
  ext i j
  fin_cases i <;> fin_cases j <;> rfl

end Jerk
end SafetyIsland.Mpc.MPC
