import SafetyIsland.Ieee.Float

namespace SafetyIsland

open Ieee

-- A reading of the system clock in seconds since the epoch.
structure WallTime where
  seconds : Float
  finite  : IsFinite seconds
  nonneg  : 0 ≤ seconds

instance : LE WallTime where
  le t₁ t₂ := t₁.seconds ≤ t₂.seconds

instance : DecidableLE WallTime := fun t₁ t₂ =>
  inferInstanceAs (Decidable (t₁.seconds ≤ t₂.seconds))

abbrev SteadyTime := ℕ

structure ClockReading where
  wall   : WallTime
  steady : SteadyTime

structure TimeMsg where
  sec     : Int32
  nanosec : UInt32
deriving DecidableEq

instance : Inhabited TimeMsg where
  default := { sec := 0, nanosec := 0 }

namespace Clock

def nanoPerSec : ℤ := 1000000000

def toRosTime (time : Float) : TimeMsg :=
  let count := truncate (time * 1e9)
  { sec     := .ofInt (count.tdiv nanoPerSec)
    nanosec := .ofInt (count.tmod nanoPerSec) }

-- The length of an interval of the steady clock as a double number of seconds.
def durationSeconds (start now : SteadyTime) : Float :=
  Float.ofInt (now - start : ℤ) / 1e9

end Clock

theorem WallTime.isNumber (t : WallTime) : IsNumber t.seconds :=
  t.finite.isNumber

theorem WallTime.le_refl (t : WallTime) : t ≤ t :=
  le_iff.mpr ⟨t.isNumber, t.isNumber, le_rfl⟩

end SafetyIsland
