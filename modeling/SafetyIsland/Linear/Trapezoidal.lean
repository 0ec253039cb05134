import Mathlib.LinearAlgebra.Matrix.NonsingularInverse
import Mathlib.Tactic.LinearCombination

namespace Linear

open Matrix

section

variable {ι K : Type} [Fintype ι] [DecidableEq ι] [Field K]
variable {a m : Matrix ι ι K} {f x y : ι → K} {h : K}

-- The inverse by its minors.
def inverse (m : Matrix ι ι K) : Matrix ι ι K :=
  m.det⁻¹ • m.adjugate

theorem inverse_mulVec (hd : m.det ≠ 0) : inverse m *ᵥ (m *ᵥ x) = x := by
  rw [inverse, smul_mulVec, mulVec_mulVec, adjugate_mul, smul_mulVec, one_mulVec, smul_smul,
    inv_mul_cancel₀ hd, one_smul]

theorem mulVec_inverse (hd : m.det ≠ 0) : m *ᵥ (inverse m *ᵥ x) = x := by
  rw [inverse, smul_mulVec, mulVec_smul, mulVec_mulVec, mul_adjugate, smul_mulVec, one_mulVec,
    smul_smul, inv_mul_cancel₀ hd, one_smul]

-- A step of `2 * h` of `x' = a * x + f`, with the bilinear transform of the exponential.
def bilinearStep (a : Matrix ι ι K) (f : ι → K) (h : K) (x : ι → K) : ι → K :=
  inverse (1 - h • a) *ᵥ ((1 + h • a) *ᵥ x + (2 * h) • f)

theorem eq_bilinearStep_iff (hd : (1 - h • a).det ≠ 0) :
    y = bilinearStep a f h x ↔ y - x = h • (a *ᵥ (x + y)) + (2 * h) • f := by
  have hm : y = bilinearStep a f h x ↔
      (1 - h • a) *ᵥ y = (1 + h • a) *ᵥ x + (2 * h) • f := by
    constructor
    case mp =>
      rintro rfl
      exact mulVec_inverse hd
    case mpr =>
      intro he
      rw [bilinearStep, ← he, inverse_mulVec hd]
  rw [hm, sub_mulVec, add_mulVec, one_mulVec, one_mulVec, smul_mulVec, smul_mulVec, mulVec_add,
    smul_add, ← sub_eq_zero, ← sub_eq_zero (a := y - x)]
  apply Eq.congr _ rfl
  abel

theorem bilinearStep_of_rest (hd : (1 - h • a).det ≠ 0) (hr : a *ᵥ x + f = 0) :
    bilinearStep a f h x = x := by
  symm
  rw [eq_bilinearStep_iff hd, sub_self, mulVec_add, ← two_smul K (a *ᵥ x), smul_smul,
    mul_comm h 2, ← smul_add, hr, smul_zero]

end
end Linear
