import Mathlib.Algebra.Order.Field.Basic
import Mathlib.LinearAlgebra.Matrix.ToLinearEquiv
import Mathlib.LinearAlgebra.Matrix.Symmetric
import Mathlib.Tactic.LinearCombination
import Mathlib.Tactic.Linarith

namespace Quadratic

open Matrix

section

variable {ι K : Type} [Fintype ι] [Field K] {h : Matrix ι ι K} {f x y : ι → K}

section

local instance atLeastTwo_two : Nat.AtLeastTwo 2 := ⟨by decide⟩

def objective (h : Matrix ι ι K) (f x : ι → K) : K :=
  1 / 2 * (x ⬝ᵥ h *ᵥ x) + f ⬝ᵥ x

end

theorem symm_comm (hs : h.IsSymm) (x y : ι → K) : x ⬝ᵥ h *ᵥ y = y ⬝ᵥ h *ᵥ x := by
  rw [dotProduct_mulVec, ← mulVec_transpose, hs.eq, dotProduct_comm]

theorem objective_expand [NeZero (2 : K)] (hs : h.IsSymm) :
    objective h f y = objective h f x + (h *ᵥ x + f) ⬝ᵥ (y - x) +
      1 / 2 * ((y - x) ⬝ᵥ h *ᵥ (y - x)) := by
  have hc := symm_comm hs x y
  have hx : (h *ᵥ x) ⬝ᵥ y = y ⬝ᵥ h *ᵥ x := dotProduct_comm _ _
  have hx' : (h *ᵥ x) ⬝ᵥ x = x ⬝ᵥ h *ᵥ x := dotProduct_comm _ _
  have h₂ : (2 : K) ≠ 0 := two_ne_zero
  simp only [objective, mulVec_sub, dotProduct_sub, sub_dotProduct, add_dotProduct, hx, hx', hc]
  field_simp
  ring

variable [LinearOrder K] [IsStrictOrderedRing K]

-- A symmetric form without negative values.
structure Semidefinite (h : Matrix ι ι K) : Prop where
  symm   : h.IsSymm
  nonneg : ∀ x, 0 ≤ x ⬝ᵥ h *ᵥ x

namespace Semidefinite

-- Moving away from a zero of the form, its value would become negative on one of the two sides.
theorem mulVec_eq_zero [DecidableEq ι] (hs : Semidefinite h) (hx : x ⬝ᵥ h *ᵥ x = 0) :
    h *ᵥ x = 0 := by
  have key (w : ι → K) : w ⬝ᵥ h *ᵥ x = 0 := by
    set b := w ⬝ᵥ h *ᵥ x with hb
    set c := w ⬝ᵥ h *ᵥ w with hc
    have hq (t : K) : 0 ≤ 2 * t * b + t ^ 2 * c := by
      have hn := hs.nonneg (x + t • w)
      have he : (x + t • w) ⬝ᵥ h *ᵥ (x + t • w) = 2 * t * b + t ^ 2 * c := by
        simp only [mulVec_add, mulVec_smul, dotProduct_add, add_dotProduct, smul_dotProduct,
          dotProduct_smul, smul_eq_mul, hx, symm_comm hs.symm x w, ← hb, ← hc]
        ring
      rwa [he] at hn
    by_contra hne
    have hc₀ : 0 ≤ c := hs.nonneg w
    have hneg := hq (-b / (c + 1))
    have hpos : 0 < c + 1 := by linarith
    have he : 2 * (-b / (c + 1)) * b + (-b / (c + 1)) ^ 2 * c =
        -(b ^ 2 * (c + 2)) / (c + 1) ^ 2 := by
      field_simp
      ring
    have hb₂ : 0 < b ^ 2 := by positivity
    have hlt : -(b ^ 2 * (c + 2)) / (c + 1) ^ 2 < 0 :=
      div_neg_of_neg_of_pos (by nlinarith) (by positivity)
    linarith
  funext i
  simpa [Pi.single_apply] using key (Pi.single i 1)

theorem objective_le (hs : Semidefinite h) (hx : h *ᵥ x = -f) (y : ι → K) :
    objective h f x ≤ objective h f y := by
  have hn := hs.nonneg (y - x)
  rw [objective_expand (x := x) (y := y) hs.symm, hx, neg_add_cancel, zero_dotProduct]
  linarith

theorem eq_of_objective_le [DecidableEq ι] (hs : Semidefinite h) (hd : h.det ≠ 0)
    (hx : h *ᵥ x = -f) (hy : objective h f y ≤ objective h f x) : y = x := by
  have hn := hs.nonneg (y - x)
  rw [objective_expand (x := x) (y := y) hs.symm, hx, neg_add_cancel, zero_dotProduct] at hy
  have hz : (y - x) ⬝ᵥ h *ᵥ (y - x) = 0 := by linarith
  exact sub_eq_zero.mp (eq_zero_of_mulVec_eq_zero hd (hs.mulVec_eq_zero hz))

theorem pos [DecidableEq ι] (hs : Semidefinite h) (hd : h.det ≠ 0) (hx : x ≠ 0) :
    0 < x ⬝ᵥ h *ᵥ x :=
  lt_of_le_of_ne (hs.nonneg x) fun h₀ =>
    hx (eq_zero_of_mulVec_eq_zero hd (hs.mulVec_eq_zero h₀.symm))

end Semidefinite
end
end Quadratic
