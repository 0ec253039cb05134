import Mathlib.Algebra.Order.BigOperators.Ring.Finset
import Mathlib.Data.Sign.Basic
import Mathlib.RingTheory.PowerSeries.Inverse
import Mathlib.Tactic.LinearCombination

namespace SafetyIsland.Signal

open PowerSeries

-- A recursive filter of signals, a signal being the power series of its samples. Its answer `y`
-- to `u` is `forward * u + feedback * y`, where the feedback only sees earlier samples.
structure Recursive (K : Type) [Field K] where
  forward  : PowerSeries K
  feedback : PowerSeries K
  delayed  : constantCoeff feedback = 0

namespace Recursive

variable {K : Type} [Field K] {f : Recursive K} {u y : PowerSeries K}

def Answers (f : Recursive K) (u y : PowerSeries K) : Prop :=
  y = f.forward * u + f.feedback * y

noncomputable def impulse (f : Recursive K) : PowerSeries K :=
  f.forward * (1 - f.feedback)⁻¹

theorem sub_feedback_mul_inv (f : Recursive K) : (1 - f.feedback) * (1 - f.feedback)⁻¹ = 1 :=
  PowerSeries.mul_inv_cancel _ $ by simp [f.delayed]

theorem Answers.eq_mul (h : f.Answers u y) : y = f.impulse * u :=
  calc
    y = (1 - f.feedback) * (1 - f.feedback)⁻¹ * y := by rw [f.sub_feedback_mul_inv, one_mul]
    _ = (y - f.feedback * y) * (1 - f.feedback)⁻¹ := by ring
    _ = f.forward * u * (1 - f.feedback)⁻¹        := by rw [sub_eq_of_eq_add h]
    _ = f.impulse * u                             := by rw [impulse]; ring

theorem answers_impulse (f : Recursive K) : f.Answers 1 f.impulse :=
  calc
    f.impulse = f.forward * ((1 - f.feedback) * (1 - f.feedback)⁻¹) + f.feedback * f.impulse := by
      rw [impulse]; ring
    _ = f.forward * 1 + f.feedback * f.impulse := by rw [f.sub_feedback_mul_inv]

noncomputable def secondOrder (b₀ b₁ b₂ a₁ a₂ : K) : Recursive K where
  forward  := C b₀ + X * (C b₁ + X * C b₂)
  feedback := X * (C a₁ + X * C a₂)
  delayed  := by simp

variable {b₀ b₁ b₂ a₁ a₂ : K}

theorem secondOrder_answers_iff :
    (secondOrder b₀ b₁ b₂ a₁ a₂).Answers u y ↔
      coeff 0 y = b₀ * coeff 0 u ∧
      coeff 1 y = b₀ * coeff 1 u + b₁ * coeff 0 u + a₁ * coeff 0 y ∧
      ∀ n, coeff (n + 2) y = b₀ * coeff (n + 2) u + b₁ * coeff (n + 1) u + b₂ * coeff n u +
        a₁ * coeff (n + 1) y + a₂ * coeff n y := by
  have hs : (secondOrder b₀ b₁ b₂ a₁ a₂).forward * u + (secondOrder b₀ b₁ b₂ a₁ a₂).feedback * y =
      C b₀ * u + X * (C b₁ * u + C a₁ * y + X * (C b₂ * u + C a₂ * y)) := by
    simp only [secondOrder]
    ring
  rw [Answers, hs, PowerSeries.ext_iff]
  constructor
  case mp =>
    intro h
    refine ⟨?_, ?_, fun n => ?_⟩
    · simpa using h 0
    · simpa [coeff_succ_X_mul, add_assoc] using h 1
    · have hn := h (n + 2)
      simp only [map_add, coeff_C_mul, coeff_succ_X_mul] at hn
      linear_combination hn
  case mpr =>
    intro ⟨h₀, h₁, h₂⟩ n
    match n with
    | 0     => simpa using h₀
    | 1     => simpa [coeff_succ_X_mul, add_assoc] using h₁
    | n + 2 =>
      simp only [map_add, coeff_C_mul, coeff_succ_X_mul]
      linear_combination h₂ n

end Recursive

theorem coeff_mul_eq_sum {K : Type} [Semiring K] (h u : PowerSeries K) (n : ℕ) :
    coeff n (h * u) = ∑ k ∈ Finset.range (n + 1), coeff k h * coeff (n - k) u := by
  rw [coeff_mul, Finset.Nat.sum_antidiagonal_eq_sum_range_succ_mk]

variable {K : Type} [Field K] [LinearOrder K] [IsStrictOrderedRing K]
variable {h u : PowerSeries K} {l m : K} {n : ℕ}

-- The largest answer that inputs bounded by one can draw from `h` at the `n`-th sample.
noncomputable def gain (h : PowerSeries K) (n : ℕ) : K :=
  ∑ k ∈ Finset.range (n + 1), |coeff k h|

theorem abs_coeff_mul_le (hu : ∀ k, |coeff k u| ≤ l) : |coeff n (h * u)| ≤ gain h n * l :=
  calc
    |coeff n (h * u)| ≤ ∑ k ∈ Finset.range (n + 1), |coeff k h * coeff (n - k) u| := by
      rw [coeff_mul_eq_sum]
      apply Finset.abs_sum_le_sum_abs
    _ ≤ ∑ k ∈ Finset.range (n + 1), |coeff k h| * l := by
      apply Finset.sum_le_sum
      intro k _
      rw [abs_mul]
      exact mul_le_mul_of_nonneg_left (hu _) (abs_nonneg _)
    _ = gain h n * l := by rw [gain, Finset.sum_mul]

-- The input that drives the `n`-th answer to the gain.
noncomputable def worst (h : PowerSeries K) (l : K) (n : ℕ) : PowerSeries K :=
  .mk fun k => SignType.sign (coeff (n - k) h) * l

theorem abs_coeff_worst_le (hl : 0 ≤ l) (k : ℕ) : |coeff k (worst h l n)| ≤ l := by
  rw [worst, coeff_mk, abs_mul, abs_of_nonneg hl]
  apply mul_le_of_le_one_left hl
  cases SignType.sign (coeff (n - k) h) <;> simp

theorem coeff_mul_worst (h : PowerSeries K) (l : K) (n : ℕ) :
    coeff n (h * worst h l n) = gain h n * l := by
  rw [coeff_mul_eq_sum, gain, Finset.sum_mul]
  apply Finset.sum_congr rfl
  intro k hk
  have hk : n - (n - k) = k := Nat.sub_sub_self $ Nat.le_of_lt_succ $ Finset.mem_range.mp hk
  rw [worst, coeff_mk, hk, ←mul_assoc, self_mul_sign]

theorem bounded_answer_iff (hl : 0 ≤ l) :
    (∀ u : PowerSeries K, (∀ k, |coeff k u| ≤ l) → ∀ n, |coeff n (h * u)| ≤ m) ↔
      ∀ n, gain h n * l ≤ m where
  mp hb n := by
    have hw := hb (worst h l n) (abs_coeff_worst_le hl) n
    rw [coeff_mul_worst] at hw
    exact (le_abs_self _).trans hw
  mpr hg _ hu n := (abs_coeff_mul_le hu).trans (hg n)

end SafetyIsland.Signal
