import Mathlib.Analysis.SpecialFunctions.Trigonometric.Arctan
import Mathlib.Analysis.SpecialFunctions.Complex.Arg
import SafetyIsland.Reference.Scalar

namespace SafetyIsland

namespace OnReal

open Classical in
-- Exact arithmetic without a division by zero.
noncomputable scoped instance scalarReal : Scalar ℝ where
  decLT      := inferInstance
  decLE      := inferInstance
  isFinite _ := true
  ceilToInt  := Int.ceil

noncomputable scoped instance libmReal : Libm ℝ where
  hypot x y := √(x ^ 2 + y ^ 2)
  sin       := Real.sin
  cos       := Real.cos
  atan      := Real.arctan
  atan2 y x := Complex.arg ⟨x, y⟩

end OnReal

open OnReal

@[simp] theorem natCast_real (n : ℕ) : @Nat.cast ℝ scalarReal.toNatCast n = (n : ℝ) := rfl

@[simp] theorem ofScientific_real (m : ℕ) (s : Bool) (e : ℕ) :
    @OfScientific.ofScientific ℝ scalarReal.toOfScientific m s e =
      (OfScientific.ofScientific m s e : ℝ) := rfl

@[simp] theorem stdMax_real (x y : ℝ) : stdMax x y = max x y := by
  rw [stdMax]
  split_ifs with h
  · exact (max_eq_right h.le).symm
  · exact (max_eq_left (not_lt.mp h)).symm

@[simp] theorem stdMin_real (x y : ℝ) : stdMin x y = min x y := by
  rw [stdMin]
  split_ifs with h
  · exact (min_eq_right h.le).symm
  · exact (min_eq_left (not_lt.mp h)).symm

theorem stdClamp_real {v lo hi : ℝ} (h : lo ≤ hi) : stdClamp v lo hi = max lo (min v hi) := by
  rw [stdClamp]
  split_ifs with hl hh
  · rw [max_eq_left (min_le_of_left_le hl.le)]
  · rw [min_eq_right hh.le, max_eq_right h]
  · rw [min_eq_left (not_lt.mp hh), max_eq_right (not_lt.mp hl)]

end SafetyIsland
