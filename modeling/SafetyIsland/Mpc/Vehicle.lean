import Mathlib.Algebra.Order.Field.Basic
import Mathlib.Analysis.SpecialFunctions.Trigonometric.Arctan
import Mathlib.Tactic.Positivity
import Mathlib.Tactic.FieldSimp
import SafetyIsland.Linear.Trapezoidal
import SafetyIsland.Mpc.Prediction

namespace SafetyIsland.Mpc

open Eigen MatrixXd Matrix Linear

-- The functions of the standard library that the vehicle models use.
class Trigonometry (K : Type) where
  atan : K → K
  tan  : K → K
  cos  : K → K

noncomputable instance trigonometryReal : Trigonometry ℝ where
  atan := Real.arctan
  tan  := Real.tan
  cos  := Real.cos

open Trigonometry

section

variable {K : Type} [Field K] {n : ℕ}

def vector (x : Fin n → K) (i : ℕ) : K :=
  if h : i < n then x ⟨i, h⟩ else 0

-- The bilinear discretization that every model ends with.
def discretize (ad : Matrix (Fin n) (Fin n) K) (bd wd : Fin n → K) (cd : Matrix (Fin 2) (Fin n) K)
    (dt : K) : Discrete K :=
  let idt2aInv := inverse (1 - (dt * (1 / 2)) • ad)
  { ad := (MatrixXd.of (idt2aInv * (1 + (dt * (1 / 2)) • ad))).coeff
    bd := vector (dt • (idt2aInv *ᵥ bd))
    cd := (MatrixXd.of cd).coeff
    wd := vector (dt • (idt2aInv *ᵥ wd)) }

-- A step of the discrete model.
def Discrete.step (d : Discrete K) (n : ℕ) (u : K) (x : ℕ → K) (r : ℕ) : K :=
  ∑ k ∈ Finset.range n, d.ad r k * x k + d.bd r * u + d.wd r

theorem discretize_step [NeZero (2 : K)] {ad : Matrix (Fin n) (Fin n) K} {bd wd : Fin n → K}
    {cd : Matrix (Fin 2) (Fin n) K} {dt u : K} {x : ℕ → K} :
    MatrixXd.vec n ((discretize ad bd wd cd dt).step n u x) =
      bilinearStep ad (u • bd + wd) (dt * (1 / 2)) (MatrixXd.vec n x) := by
  have h₂ : 2 * (dt * (1 / 2)) = dt := by field_simp
  funext r
  have hs : ∑ k ∈ Finset.range n, (discretize ad bd wd cd dt).ad r k * x k =
      ((inverse (1 - (dt * (1 / 2)) • ad) * (1 + (dt * (1 / 2)) • ad)) *ᵥ MatrixXd.vec n x) r := by
    rw [Finset.sum_range]
    apply Finset.sum_congr rfl
    intro k _
    simp [discretize, MatrixXd.of, MatrixXd.vec]
  rw [MatrixXd.vec, Discrete.step, hs, bilinearStep, h₂, mulVec_add, ← mulVec_mulVec, smul_add, mulVec_add,
    mulVec_smul, mulVec_smul, mulVec_smul]
  simp [discretize, vector]
  ring

end

section

variable {K : Type} [Field K] [LinearOrder K] [Trigonometry K]

def sign (x : K) : K :=
  (if x > 0 then 1 else 0) - (if x < 0 then 1 else 0)

-- The angle around which a model is linearized.
def linearizedAngle (wheelbase steerLim curvature : K) : K :=
  let deltaR := atan (wheelbase * curvature)
  if |deltaR| ≥ steerLim then steerLim * sign deltaR else deltaR

structure KinematicsBicycleModel (K : Type) where
  wheelbase : K
  steerLim  : K
  steerTau  : K

namespace KinematicsBicycleModel

variable (m : KinematicsBicycleModel K)

def deltaR (curvature : K) : K :=
  linearizedAngle m.wheelbase m.steerLim curvature

def cosDeltaRSquaredInv (curvature : K) : K :=
  1 / (cos (m.deltaR curvature) * cos (m.deltaR curvature))

-- The model is not left without an influence of the steering.
def velocity (velocity : K) : K :=
  if |velocity| < 1 / 10 ^ 4 then 1 / 10 ^ 4 * (if velocity ≥ 0 then 1 else -1) else velocity

-- The state is the lateral error, the yaw error and the steering angle.
def ad (velocity curvature : K) : Matrix (Fin 3) (Fin 3) K :=
  !![0, velocity, 0;
     0, 0, velocity / m.wheelbase * m.cosDeltaRSquaredInv curvature;
     0, 0, -1 / m.steerTau]

def bd : Fin 3 → K :=
  ![0, 0, 1 / m.steerTau]

def wd (velocity curvature : K) : Fin 3 → K :=
  ![0,
    -velocity * curvature + velocity / m.wheelbase *
      (tan (m.deltaR curvature) - m.deltaR curvature * m.cosDeltaRSquaredInv curvature),
    0]

def cd : Matrix (Fin 2) (Fin 3) K :=
  !![1, 0, 0; 0, 1, 0]

def calculateDiscreteMatrix (velocity curvature dt : K) : Discrete K :=
  let v := KinematicsBicycleModel.velocity velocity
  discretize (m.ad v curvature) m.bd (m.wd v curvature) cd dt

def calculateReferenceInput (_velocity curvature : K) : K :=
  atan (m.wheelbase * curvature)

def model : VehicleModel K where
  dimX                    := 3
  calculateDiscreteMatrix := m.calculateDiscreteMatrix
  calculateReferenceInput := m.calculateReferenceInput

end KinematicsBicycleModel

structure KinematicsBicycleModelNoDelay (K : Type) where
  wheelbase : K
  steerLim  : K

namespace KinematicsBicycleModelNoDelay

variable (m : KinematicsBicycleModelNoDelay K)

def deltaR (curvature : K) : K :=
  linearizedAngle m.wheelbase m.steerLim curvature

def cosDeltaRSquaredInv (curvature : K) : K :=
  1 / (cos (m.deltaR curvature) * cos (m.deltaR curvature))

-- The state is the lateral error and the yaw error.
def ad (velocity : K) : Matrix (Fin 2) (Fin 2) K :=
  !![0, velocity; 0, 0]

def bd (velocity curvature : K) : Fin 2 → K :=
  ![0, velocity / m.wheelbase * m.cosDeltaRSquaredInv curvature]

def wd (velocity curvature : K) : Fin 2 → K :=
  ![0, -velocity / m.wheelbase * m.deltaR curvature * m.cosDeltaRSquaredInv curvature]

def cd : Matrix (Fin 2) (Fin 2) K :=
  !![1, 0; 0, 1]

def calculateDiscreteMatrix (velocity curvature dt : K) : Discrete K :=
  discretize (ad velocity) (m.bd velocity curvature) (m.wd velocity curvature) cd dt

def calculateReferenceInput (_velocity curvature : K) : K :=
  atan (m.wheelbase * curvature)

def model : VehicleModel K where
  dimX                    := 2
  calculateDiscreteMatrix := m.calculateDiscreteMatrix
  calculateReferenceInput := m.calculateReferenceInput

end KinematicsBicycleModelNoDelay

structure DynamicsBicycleModel (K : Type) where
  wheelbase : K
  lf        : K
  lr        : K
  mass      : K
  iz        : K
  cf        : K
  cr        : K

namespace DynamicsBicycleModel

-- The masses over the wheels are those of the front and of the rear.
def create (wheelbase massFl massFr massRl massRr cf cr : K) : DynamicsBicycleModel K :=
  let massFront := massFl + massFr
  let massRear := massRl + massRr
  let mass := massFront + massRear
  let lf := wheelbase * (1 - massFront / mass)
  let lr := wheelbase * (1 - massRear / mass)
  { wheelbase, lf, lr, mass, cf, cr
    iz := lf * lf * massFront + lr * lr * massRear }

variable (m : DynamicsBicycleModel K)

-- The state is the lateral error and the yaw error, each before its rate.
def ad (vel : K) : Matrix (Fin 4) (Fin 4) K :=
  !![0, 1, 0, 0;
     0, -(m.cf + m.cr) / (m.mass * vel), (m.cf + m.cr) / m.mass,
       (m.lr * m.cr - m.lf * m.cf) / (m.mass * vel);
     0, 0, 0, 1;
     0, (m.lr * m.cr - m.lf * m.cf) / (m.iz * vel), (m.lf * m.cf - m.lr * m.cr) / m.iz,
       -(m.lf * m.lf * m.cf + m.lr * m.lr * m.cr) / (m.iz * vel)]

def bd : Fin 4 → K :=
  ![0, m.cf / m.mass, 0, m.lf * m.cf / m.iz]

def wd (vel : K) : Fin 4 → K :=
  ![0, (m.lr * m.cr - m.lf * m.cf) / (m.mass * vel) - vel, 0,
    -(m.lf * m.lf * m.cf + m.lr * m.lr * m.cr) / (m.iz * vel)]

def cd : Matrix (Fin 2) (Fin 4) K :=
  !![1, 0, 0, 0; 0, 0, 1, 0]

section

local instance atLeastTwo_hundred : Nat.AtLeastTwo 100 := ⟨by decide⟩

def calculateDiscreteMatrix (velocity curvature dt : K) : Discrete K :=
  let vel := max velocity (1 / 100)
  discretize (m.ad vel) m.bd ((curvature * vel) • m.wd vel) cd dt

def calculateReferenceInput (velocity curvature : K) : K :=
  let vel := max velocity (1 / 100)
  let kv := m.lr * m.mass / (2 * m.cf * m.wheelbase) - m.lf * m.mass / (2 * m.cr * m.wheelbase)
  m.wheelbase * curvature + kv * vel * vel * curvature

end

def model : VehicleModel K where
  dimX                    := 4
  calculateDiscreteMatrix := m.calculateDiscreteMatrix
  calculateReferenceInput := m.calculateReferenceInput

end DynamicsBicycleModel
end
end SafetyIsland.Mpc
