import Mathlib.Data.Real.Basic
import SafetyIsland.Reference.Scalar

namespace SafetyIsland

-- Exact arithmetic: a real number, or the result of an operation that has none.
inductive Exact
  | number (x : ℝ)
  | undefined

namespace Exact

noncomputable section

open Classical

def lift (f : ℝ → ℝ → ℝ) : Exact → Exact → Exact
  | number x, number y => number (f x y)
  | _,        _        => undefined

def compare (r : ℝ → ℝ → Prop) : Exact → Exact → Prop
  | number x, number y => r x y
  | _,        _        => False

instance : Add Exact where
  add := lift (· + ·)

instance : Sub Exact where
  sub := lift (· - ·)

instance : Mul Exact where
  mul := lift (· * ·)

instance : Div Exact where
  div x y := if y = number 0 then undefined else lift (· / ·) x y

instance : Neg Exact where
  neg
    | number x  => number (-x)
    | undefined => undefined

instance : LT Exact where
  lt := compare (· < ·)

instance : LE Exact where
  le := compare (· ≤ ·)

instance : OfScientific Exact where
  ofScientific m s e := number (OfScientific.ofScientific m s e)

instance : NatCast Exact where
  natCast n := number n

instance scalar : Scalar Exact where
  decLT _ _ := inferInstance
  decLE _ _ := inferInstance
  isFinite
    | number _  => true
    | undefined => false
  ceilToInt
    | number x  => ⌈x⌉
    | undefined => 0

end

variable {x y : ℝ} {a b : Exact}

@[simp] theorem number_add : number x + number y = number (x + y) := rfl

@[simp] theorem number_sub : number x - number y = number (x - y) := rfl

@[simp] theorem number_mul : number x * number y = number (x * y) := rfl

@[simp] theorem number_neg : -number x = number (-x) := rfl

@[simp] theorem number_lt : number x < number y ↔ x < y := .rfl

@[simp] theorem number_le : number x ≤ number y ↔ x ≤ y := .rfl

@[simp] theorem ofScientific_eq (m : ℕ) (s : Bool) (e : ℕ) :
    (OfScientific.ofScientific m s e : Exact) = number (OfScientific.ofScientific m s e) := rfl

theorem exists_number_of_add (h : a + b = number x) :
    (∃ y, a = number y) ∧ ∃ y, b = number y := by
  match a, b, h with
  | number _, number _, _ => simp

theorem exists_number_of_mul (h : a * b = number x) :
    (∃ y, a = number y) ∧ ∃ y, b = number y := by
  match a, b, h with
  | number _, number _, _ => simp

end Exact
end SafetyIsland
