import Mathlib.Tactic.IntervalCases
import SafetyIsland.Mpc.Matrices

namespace SafetyIsland.Mpc.MPC

open Eigen MatrixXd

variable {K : Type} [Field K] [LinearOrder K]
variable {mpc : MPC K} {traj : MPCTrajectory K} {dt : K} {x0 u : ℕ → K} {n i j r c : ℕ}

-- The states that the dynamics predict from `x0` under the inputs `u`.
def state (mpc : MPC K) (traj : MPCTrajectory K) (dt : K) (x0 u : ℕ → K) : ℕ → ℕ → K
  | 0     => x0
  | i + 1 => fun r =>
    let d := mpc.discreteAt traj dt i
    ∑ k ∈ Finset.range mpc.vehicleModel.dimX, d.ad r k * mpc.state traj dt x0 u i k +
      d.bd r * u i + d.wd r

-- The outputs of the `i`-th point, which are those of the state after it.
def outputAt (mpc : MPC K) (traj : MPCTrajectory K) (dt : K) (x0 u : ℕ → K) (i p : ℕ) : K :=
  ∑ r ∈ Finset.range mpc.vehicleModel.dimX,
    (mpc.discreteAt traj dt i).cd p r * mpc.state traj dt x0 u (i + 1) r

-- The matrices after the first `n` passes of the loop.
def predicted (mpc : MPC K) (traj : MPCTrajectory K) (dt : K) (n : ℕ) : MPCMatrix K :=
  (List.range n).foldl (mpc.predict traj dt) mpc.zeroMatrices

theorem predicted_zero : mpc.predicted traj dt 0 = mpc.zeroMatrices := rfl

theorem predicted_succ :
    mpc.predicted traj dt (n + 1) = mpc.predict traj dt (mpc.predicted traj dt n) n := by
  rw [predicted, List.range_succ, List.foldl_append]
  rfl

section Carry

variable {ad bex : MatrixXd K} {dimX t : ℕ}

omit [LinearOrder K]

-- The first `t` passes over the earlier inputs only write the block row of the `i`-th point.
theorem carry_coeff_of_ne (hd : ad.rows = dimX) (hr : r < dimX) (hj : j ≠ i) :
    ((List.range t).foldl (carryInput ad dimX i) bex).coeff (j * dimX + r) c =
      bex.coeff (j * dimX + r) c := by
  induction t with
  | zero      => rfl
  | succ t ih =>
    rw [List.range_succ, List.foldl_append, ←ih]
    exact setBlock_coeff_of_ne (b := ad * _) hd hr hj

theorem carry_coeff (hd : ad.rows = dimX) (hc : ad.cols = dimX) (hr : r < dimX) (hi : 0 < i) :
    ((List.range t).foldl (carryInput ad dimX i) bex).coeff (i * dimX + r) c =
      if c < t then
        ∑ k ∈ Finset.range dimX, ad.coeff r k * bex.coeff ((i - 1) * dimX + k) c
      else bex.coeff (i * dimX + r) c := by
  induction t with
  | zero      => rfl
  | succ t ih =>
    rw [List.range_succ, List.foldl_append, List.foldl_cons, List.foldl_nil, carryInput,
      setBlock_coeff_row (b := ad * _) hd hr, ih, mul_coeff, hc, mul_cols, block_cols, dimU,
      Nat.mul_one]
    rcases lt_trichotomy c t with h | h | h
    · rw [if_neg (by omega), if_pos h, if_pos (by omega)]
    · subst h
      rw [if_pos (by omega), if_pos (by omega)]
      apply Finset.sum_congr rfl
      intro k hk
      rw [block_coeff, Nat.sub_self, Nat.add_zero,
        carry_coeff_of_ne hd (Finset.mem_range.mp hk) (by omega)]
    · rw [if_neg (by omega), if_neg (by omega), if_neg (by omega)]

end Carry

section Dynamics

theorem predicted_succ_aex :
    (mpc.predicted traj dt (n + 1)).aex =
      (mpc.predicted traj dt n).aex.setBlock (n * mpc.vehicleModel.dimX) 0
        (if n = 0 then mpc.adAt traj dt n
         else mpc.adAt traj dt n * (mpc.predicted traj dt n).aex.block
           ((n - 1) * mpc.vehicleModel.dimX) 0 mpc.vehicleModel.dimX mpc.vehicleModel.dimX) := by
  rw [predicted_succ]
  by_cases h : n = 0 <;> simp [predict, h]

theorem predicted_succ_bex :
    (mpc.predicted traj dt (n + 1)).bex =
      (carryInputs (mpc.adAt traj dt n) mpc.vehicleModel.dimX n
        (mpc.predicted traj dt n).bex).setBlock (n * mpc.vehicleModel.dimX) n
          (mpc.bdAt traj dt n) := by
  rw [predicted_succ]
  by_cases h : n = 0 <;> simp [predict, h, dimU, carryInputs, setBlock_idem]

theorem predicted_succ_wex :
    (mpc.predicted traj dt (n + 1)).wex =
      (mpc.predicted traj dt n).wex.setBlock (n * mpc.vehicleModel.dimX) 0
        (if n = 0 then mpc.wdAt traj dt n
         else mpc.adAt traj dt n * (mpc.predicted traj dt n).wex.block
           ((n - 1) * mpc.vehicleModel.dimX) 0 mpc.vehicleModel.dimX 1 + mpc.wdAt traj dt n) := by
  rw [predicted_succ]
  by_cases h : n = 0 <;> simp [predict, h]

section Rows

variable (hr : r < mpc.vehicleModel.dimX)
include hr

theorem aex_coeff_of_ne (hi : i ≠ n) :
    (mpc.predicted traj dt (n + 1)).aex.coeff (i * mpc.vehicleModel.dimX + r) c =
      (mpc.predicted traj dt n).aex.coeff (i * mpc.vehicleModel.dimX + r) c := by
  rw [predicted_succ_aex]
  apply setBlock_coeff_of_ne _ hr hi
  split_ifs <;> rfl

theorem bex_coeff_of_ne (hi : i ≠ n) :
    (mpc.predicted traj dt (n + 1)).bex.coeff (i * mpc.vehicleModel.dimX + r) c =
      (mpc.predicted traj dt n).bex.coeff (i * mpc.vehicleModel.dimX + r) c := by
  rw [predicted_succ_bex, setBlock_coeff_of_ne bdAt_rows hr hi]
  exact carry_coeff_of_ne adAt_rows hr hi

theorem wex_coeff_of_ne (hi : i ≠ n) :
    (mpc.predicted traj dt (n + 1)).wex.coeff (i * mpc.vehicleModel.dimX + r) c =
      (mpc.predicted traj dt n).wex.coeff (i * mpc.vehicleModel.dimX + r) c := by
  rw [predicted_succ_wex]
  apply setBlock_coeff_of_ne _ hr hi
  split_ifs <;> rfl

theorem bex_coeff_eq_zero (h : i < c ∨ n ≤ i) :
    (mpc.predicted traj dt n).bex.coeff (i * mpc.vehicleModel.dimX + r) c = 0 := by
  induction n with
  | zero      => rfl
  | succ n ih =>
    by_cases hi : i = n
    · subst hi
      have hc : i < c := by omega
      rw [predicted_succ_bex, setBlock_coeff_row bdAt_rows hr,
        if_neg (by rw [bdAt_cols]; omega), ←ih (.inr le_rfl), carryInputs]
      cases i with
      | zero   => rfl
      | succ i => rw [carry_coeff adAt_rows adAt_cols hr (by omega), if_neg (by omega)]
    · rw [bex_coeff_of_ne hr hi]
      exact ih (by omega)

theorem aex_row_zero (hc : c < mpc.vehicleModel.dimX) :
    (mpc.predicted traj dt 1).aex.coeff r c = (mpc.discreteAt traj dt 0).ad r c := by
  rw [predicted_succ_aex]
  simp [setBlock, adAt, hr, hc]

theorem wex_row_zero : (mpc.predicted traj dt 1).wex.coeff r 0 = (mpc.discreteAt traj dt 0).wd r := by
  rw [predicted_succ_wex]
  simp [setBlock, wdAt, hr]

theorem bex_row_zero :
    (mpc.predicted traj dt 1).bex.coeff r c =
      if c = 0 then (mpc.discreteAt traj dt 0).bd r else 0 := by
  rw [predicted_succ_bex]
  simp [setBlock, bdAt, hr, carryInputs, predicted_zero, zeroMatrices, dimU]

theorem aex_row_succ (hc : c < mpc.vehicleModel.dimX) :
    (mpc.predicted traj dt (n + 2)).aex.coeff ((n + 1) * mpc.vehicleModel.dimX + r) c =
      ∑ k ∈ Finset.range mpc.vehicleModel.dimX, (mpc.discreteAt traj dt (n + 1)).ad r k *
        (mpc.predicted traj dt (n + 1)).aex.coeff (n * mpc.vehicleModel.dimX + k) c := by
  rw [predicted_succ_aex, if_neg (Nat.succ_ne_zero n), setBlock_coeff_row (mul_rows.trans adAt_rows) hr,
    if_pos ⟨Nat.zero_le c, by simpa using hc⟩, mul_coeff]
  simp [adAt]

theorem wex_row_succ :
    (mpc.predicted traj dt (n + 2)).wex.coeff ((n + 1) * mpc.vehicleModel.dimX + r) 0 =
      ∑ k ∈ Finset.range mpc.vehicleModel.dimX, (mpc.discreteAt traj dt (n + 1)).ad r k *
        (mpc.predicted traj dt (n + 1)).wex.coeff (n * mpc.vehicleModel.dimX + k) 0 +
      (mpc.discreteAt traj dt (n + 1)).wd r := by
  rw [predicted_succ_wex, if_neg (Nat.succ_ne_zero n),
    setBlock_coeff_row (add_rows.trans $ mul_rows.trans adAt_rows) hr, if_pos (by simp), add_coeff, mul_coeff]
  simp [adAt, wdAt]

theorem bex_row_succ :
    (mpc.predicted traj dt (n + 2)).bex.coeff ((n + 1) * mpc.vehicleModel.dimX + r) c =
      ∑ k ∈ Finset.range mpc.vehicleModel.dimX, (mpc.discreteAt traj dt (n + 1)).ad r k *
        (mpc.predicted traj dt (n + 1)).bex.coeff (n * mpc.vehicleModel.dimX + k) c +
      if c = n + 1 then (mpc.discreteAt traj dt (n + 1)).bd r else 0 := by
  rw [predicted_succ_bex, setBlock_coeff_row bdAt_rows hr, carryInputs,
    carry_coeff adAt_rows adAt_cols hr (Nat.succ_pos n)]
  have hs (hc : n < c) : ∑ k ∈ Finset.range mpc.vehicleModel.dimX,
      (mpc.discreteAt traj dt (n + 1)).ad r k *
        (mpc.predicted traj dt (n + 1)).bex.coeff (n * mpc.vehicleModel.dimX + k) c = 0 := by
    apply Finset.sum_eq_zero
    intro k hk
    rw [bex_coeff_eq_zero (Finset.mem_range.mp hk) (.inl hc), mul_zero]
  rcases lt_trichotomy c (n + 1) with h | h | h
  · rw [if_neg (by omega), if_pos h, if_neg h.ne, add_zero]
    rfl
  · rw [if_pos (by rw [bdAt_cols]; omega), if_pos h, hs (by omega), zero_add]
    rfl
  · rw [if_neg (by rw [bdAt_cols]; omega), if_neg (by omega), if_neg h.ne', hs (by omega),
      bex_coeff_eq_zero hr (.inr le_rfl), add_zero]

end Rows

-- What the matrices say of a row of the states.
def stateRow (mpc : MPC K) (m : MPCMatrix K) (x0 u : ℕ → K) (q : ℕ) : K :=
  apply mpc.vehicleModel.dimX m.aex x0 q + apply mpc.horizon m.bex u q + m.wex.coeff q 0

theorem stateRow_of_ne (hr : r < mpc.vehicleModel.dimX) (hi : i ≠ n) :
    mpc.stateRow (mpc.predicted traj dt (n + 1)) x0 u (i * mpc.vehicleModel.dimX + r) =
      mpc.stateRow (mpc.predicted traj dt n) x0 u (i * mpc.vehicleModel.dimX + r) := by
  simp only [stateRow, apply, aex_coeff_of_ne hr hi, bex_coeff_of_ne hr hi, wex_coeff_of_ne hr hi]

theorem stateRow_zero (hr : r < mpc.vehicleModel.dimX) (hN : 0 < mpc.horizon) :
    mpc.stateRow (mpc.predicted traj dt 1) x0 u r = mpc.state traj dt x0 u 1 r := by
  have ha : apply mpc.vehicleModel.dimX (mpc.predicted traj dt 1).aex x0 r =
      ∑ k ∈ Finset.range mpc.vehicleModel.dimX, (mpc.discreteAt traj dt 0).ad r k * x0 k := by
    apply Finset.sum_congr rfl
    intro k hk
    rw [aex_row_zero hr (Finset.mem_range.mp hk)]
  have hb : apply mpc.horizon (mpc.predicted traj dt 1).bex u r =
      (mpc.discreteAt traj dt 0).bd r * u 0 := by
    simp only [apply, bex_row_zero hr, ite_mul, zero_mul]
    rw [Finset.sum_ite_eq', if_pos (Finset.mem_range.mpr hN)]
  rw [stateRow, ha, hb, wex_row_zero hr]
  rfl

theorem stateRow_succ (hr : r < mpc.vehicleModel.dimX) (hN : n + 1 < mpc.horizon) :
    mpc.stateRow (mpc.predicted traj dt (n + 2)) x0 u ((n + 1) * mpc.vehicleModel.dimX + r) =
      ∑ k ∈ Finset.range mpc.vehicleModel.dimX, (mpc.discreteAt traj dt (n + 1)).ad r k *
        mpc.stateRow (mpc.predicted traj dt (n + 1)) x0 u (n * mpc.vehicleModel.dimX + k) +
      (mpc.discreteAt traj dt (n + 1)).bd r * u (n + 1) + (mpc.discreteAt traj dt (n + 1)).wd r := by
  have ha : apply mpc.vehicleModel.dimX (mpc.predicted traj dt (n + 2)).aex x0
      ((n + 1) * mpc.vehicleModel.dimX + r) =
      ∑ k ∈ Finset.range mpc.vehicleModel.dimX, (mpc.discreteAt traj dt (n + 1)).ad r k *
        apply mpc.vehicleModel.dimX (mpc.predicted traj dt (n + 1)).aex x0
          (n * mpc.vehicleModel.dimX + k) := by
    simp only [apply, Finset.mul_sum]
    rw [Finset.sum_comm]
    apply Finset.sum_congr rfl
    intro c hc
    rw [aex_row_succ hr (Finset.mem_range.mp hc), Finset.sum_mul]
    simp only [mul_assoc]
  have hb : apply mpc.horizon (mpc.predicted traj dt (n + 2)).bex u
      ((n + 1) * mpc.vehicleModel.dimX + r) =
      ∑ k ∈ Finset.range mpc.vehicleModel.dimX, (mpc.discreteAt traj dt (n + 1)).ad r k *
        apply mpc.horizon (mpc.predicted traj dt (n + 1)).bex u (n * mpc.vehicleModel.dimX + k) +
      (mpc.discreteAt traj dt (n + 1)).bd r * u (n + 1) := by
    simp only [apply, bex_row_succ hr]
    simp only [add_mul _ _ (u _), Finset.sum_add_distrib, ite_mul, zero_mul, Finset.mul_sum,
      Finset.sum_mul]
    rw [Finset.sum_ite_eq', if_pos (Finset.mem_range.mpr hN), Finset.sum_comm]
    simp only [mul_assoc]
  rw [stateRow, ha, hb, wex_row_succ hr]
  simp only [stateRow, mul_add, Finset.sum_add_distrib]
  ring

theorem stateRow_predicted (hr : r < mpc.vehicleModel.dimX) (hn : n ≤ mpc.horizon) (hi : i < n) :
    mpc.stateRow (mpc.predicted traj dt n) x0 u (i * mpc.vehicleModel.dimX + r) =
      mpc.state traj dt x0 u (i + 1) r := by
  induction n generalizing i r with
  | zero      => omega
  | succ n ih =>
    by_cases h : i = n
    case neg => rw [stateRow_of_ne hr h, ih hr (by omega) (by omega)]
    case pos =>
      subst h
      cases i with
      | zero   => simpa using stateRow_zero hr hn
      | succ i =>
        rw [stateRow_succ hr hn, state]
        congr 2
        apply Finset.sum_congr rfl
        intro k hk
        rw [ih (Finset.mem_range.mp hk) (by omega) (by omega)]

end Dynamics

section Weights

variable {p : ℕ}

theorem predicted_succ_cex :
    (mpc.predicted traj dt (n + 1)).cex =
      (mpc.predicted traj dt n).cex.setBlock (n * 2) (n * mpc.vehicleModel.dimX)
        (mpc.cdAt traj dt n) := by
  rw [predicted_succ]
  by_cases h : n = 0 <;> simp [predict, h, dimY]

theorem predicted_succ_qex :
    (mpc.predicted traj dt (n + 1)).qex =
      (mpc.predicted traj dt n).qex.setBlock (n * 2) (n * 2) (mpc.adaptiveQ traj n) := by
  rw [predicted_succ]
  by_cases h : n = 0 <;> simp [predict, h, dimY]

theorem predicted_succ_r1ex :
    (mpc.predicted traj dt (n + 1)).r1ex =
      (mpc.predicted traj dt n).r1ex.setBlock (n * 1) (n * 1) (mpc.adaptiveR traj n) := by
  rw [predicted_succ]
  by_cases h : n = 0 <;> simp [predict, h, dimU]

theorem predicted_succ_urefEx :
    (mpc.predicted traj dt (n + 1)).urefEx =
      (mpc.predicted traj dt n).urefEx.setBlock (n * 1) 0
        (.constant 1 1 (mpc.referenceInput traj n)) := by
  rw [predicted_succ]
  by_cases h : n = 0 <;> simp [predict, h, dimU]

@[simp] theorem predicted_r2ex : (mpc.predicted traj dt n).r2ex = mpc.zeroMatrices.r2ex := by
  induction n with
  | zero      => rfl
  | succ n ih =>
    rw [predicted_succ, ←ih]
    by_cases h : n = 0 <;> simp [predict, h]

theorem adaptiveQ_rows : (mpc.adaptiveQ traj i).rows = 2 := by
  simp only [adaptiveQ]
  split_ifs <;> rfl

theorem adaptiveQ_cols : (mpc.adaptiveQ traj i).cols = 2 := by
  simp only [adaptiveQ]
  split_ifs <;> rfl

theorem cex_coeff_eq_zero (hp : p < 2) (h : n ≤ i) :
    (mpc.predicted traj dt n).cex.coeff (i * 2 + p) c = 0 := by
  induction n with
  | zero      => rfl
  | succ n ih =>
    rw [predicted_succ_cex, setBlock_coeff_of_ne cdAt_rows hp (by omega)]
    exact ih (by omega)

theorem qex_coeff_eq_zero (hp : p < 2) (h : n ≤ i) :
    (mpc.predicted traj dt n).qex.coeff (i * 2 + p) c = 0 := by
  induction n with
  | zero      => rfl
  | succ n ih =>
    rw [predicted_succ_qex, setBlock_coeff_of_ne adaptiveQ_rows hp (by omega)]
    exact ih (by omega)

theorem r1ex_coeff_eq_zero (h : n ≤ i) : (mpc.predicted traj dt n).r1ex.coeff i c = 0 := by
  induction n with
  | zero      => rfl
  | succ n ih =>
    have hs := setBlock_coeff_of_ne (a := (mpc.predicted traj dt n).r1ex) (j := n * 1) (c := c)
      (show (mpc.adaptiveR traj n).rows = 1 from rfl) Nat.zero_lt_one (show i ≠ n by omega)
    rw [Nat.mul_one i, Nat.add_zero] at hs
    rw [predicted_succ_r1ex, hs]
    exact ih (by omega)

theorem apply_cex {x : ℕ → K} (hp : p < 2) (hn : n ≤ mpc.horizon) (hi : i < n) :
    apply (mpc.vehicleModel.dimX * mpc.horizon) (mpc.predicted traj dt n).cex x (i * 2 + p) =
      ∑ r ∈ Finset.range mpc.vehicleModel.dimX,
        (mpc.discreteAt traj dt i).cd p r * x (i * mpc.vehicleModel.dimX + r) := by
  induction n with
  | zero      => omega
  | succ n ih =>
    rw [predicted_succ_cex]
    by_cases h : i = n
    case neg =>
      simp only [apply, setBlock_coeff_of_ne cdAt_rows hp h]
      exact ih (by omega) (by omega)
    case pos =>
      subst h
      have hw : i * mpc.vehicleModel.dimX + mpc.vehicleModel.dimX ≤
          mpc.vehicleModel.dimX * mpc.horizon := by
        rw [←Nat.succ_mul, Nat.mul_comm]
        exact Nat.mul_le_mul_left _ hn
      simp only [apply, setBlock_coeff_row cdAt_rows hp, cex_coeff_eq_zero hp le_rfl, cdAt_cols,
        ite_mul, zero_mul]
      rw [sum_window hw]
      apply Finset.sum_congr rfl
      intro r _
      rw [Nat.add_sub_cancel_left]
      rfl

theorem urefEx_coeff (hi : i < n) :
    (mpc.predicted traj dt n).urefEx.coeff i 0 = mpc.referenceInput traj i := by
  induction n with
  | zero      => omega
  | succ n ih =>
    rw [predicted_succ_urefEx]
    by_cases h : i = n
    case pos =>
      subst h
      simp [setBlock, constant]
    case neg =>
      have hs := setBlock_coeff_of_ne (a := (mpc.predicted traj dt n).urefEx) (j := 0) (c := 0)
        (show (constant 1 1 (mpc.referenceInput traj n)).rows = 1 from rfl) Nat.zero_lt_one h
      rw [Nat.mul_one i, Nat.add_zero] at hs
      rw [hs]
      exact ih (by omega)

theorem bilin_qex {y z : ℕ → K} (hn : n ≤ mpc.horizon) :
    bilin (2 * mpc.horizon) (mpc.predicted traj dt n).qex y z =
      ∑ i ∈ Finset.range n,
        bilin 2 (mpc.adaptiveQ traj i) (fun k => y (i * 2 + k)) (fun k => z (i * 2 + k)) := by
  induction n with
  | zero      => simp [bilin_eq_sum, predicted_zero, zeroMatrices]
  | succ n ih =>
    rw [predicted_succ_qex, setBlock_eq_addBlock, bilin_addBlock adaptiveQ_rows adaptiveQ_cols,
      ih (by omega), Finset.sum_range_succ]
    · omega
    · intro r c hr _
      rw [adaptiveQ_rows] at hr
      exact qex_coeff_eq_zero hr le_rfl

theorem bilin_r1ex {y z : ℕ → K} (hn : n ≤ mpc.horizon) :
    bilin mpc.horizon (mpc.predicted traj dt n).r1ex y z =
      ∑ i ∈ Finset.range n, (mpc.adaptiveR traj i).coeff 0 0 * (y i * z i) := by
  induction n with
  | zero      => simp [bilin_eq_sum, predicted_zero, zeroMatrices]
  | succ n ih =>
    rw [predicted_succ_r1ex, setBlock_eq_addBlock,
      bilin_addBlock (p := 1) rfl rfl (by omega), ih (by omega), Finset.sum_range_succ]
    · simp only [bilin_eq_sum, Finset.sum_range_one, Nat.mul_one, Nat.add_zero]
      ring
    · intro r c hr _
      exact r1ex_coeff_eq_zero (by omega)

-- The weights of the two outputs and of the input at the `i`-th point.
def latWeight (mpc : MPC K) (traj : MPCTrajectory K) (i : ℕ) : K :=
  if i = mpc.horizon - 1 then mpc.param.nominalWeight.terminalLatError
  else (mpc.getWeight (traj.k i * mpc.signVx)).latError

def headingWeight (mpc : MPC K) (traj : MPCTrajectory K) (i : ℕ) : K :=
  let w := mpc.getWeight (traj.k i * mpc.signVx)
  (if i = mpc.horizon - 1 then mpc.param.nominalWeight.terminalHeadingError else w.headingError) +
    traj.vx i * traj.vx i * w.headingErrorSquaredVel

def inputWeight (mpc : MPC K) (traj : MPCTrajectory K) (i : ℕ) : K :=
  let w := mpc.getWeight (traj.k i * mpc.signVx)
  w.steeringInput + traj.vx i * traj.vx i * w.steeringInputSquaredVel

theorem adaptiveQ_coeff :
    (mpc.adaptiveQ traj i).coeff 0 0 = mpc.latWeight traj i ∧
    (mpc.adaptiveQ traj i).coeff 0 1 = 0 ∧
    (mpc.adaptiveQ traj i).coeff 1 0 = 0 ∧
    (mpc.adaptiveQ traj i).coeff 1 1 = mpc.headingWeight traj i := by
  by_cases h : i = mpc.horizon - 1 <;>
    simp [adaptiveQ, addAt_coeff, set_coeff, latWeight, headingWeight, h]

theorem adaptiveR_coeff : (mpc.adaptiveR traj i).coeff 0 0 = mpc.inputWeight traj i := by
  simp [adaptiveR, addAt_coeff, set_coeff, inputWeight]

theorem symm_adaptiveQ : Symm 2 (mpc.adaptiveQ traj i) := by
  have ⟨_, h₁, h₂, _⟩ := @adaptiveQ_coeff _ _ _ mpc traj i
  intro r c hr hc
  interval_cases r <;> interval_cases c <;> simp [h₁, h₂]

theorem symm_qex (hn : n ≤ mpc.horizon) :
    Symm (2 * mpc.horizon) (mpc.predicted traj dt n).qex := by
  induction n with
  | zero      => exact fun _ _ _ _ => rfl
  | succ n ih =>
    rw [predicted_succ_qex, setBlock_eq_addBlock]
    · exact (ih (by omega)).addBlock symm_adaptiveQ adaptiveQ_rows adaptiveQ_cols
    · intro r c hr _
      rw [adaptiveQ_rows] at hr
      exact qex_coeff_eq_zero hr le_rfl

theorem symm_r1ex (hn : n ≤ mpc.horizon) :
    Symm mpc.horizon (mpc.predicted traj dt n).r1ex := by
  induction n with
  | zero      => exact fun _ _ _ _ => rfl
  | succ n ih =>
    rw [predicted_succ_r1ex, setBlock_eq_addBlock]
    · exact (ih (by omega)).addBlock (p := 1) (fun i j hi hj => by congr <;> omega) rfl rfl
    · intro r c hr _
      exact r1ex_coeff_eq_zero (by omega)

end Weights
end SafetyIsland.Mpc.MPC
