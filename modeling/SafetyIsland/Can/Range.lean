import SafetyIsland.Can.Encoder
import SafetyIsland.Ieee.Infinite

namespace SafetyIsland.Can

open Ieee

theorem unpack_low : Stored.unpack (minI32 - 0.5 : Float) =
    .finite .negative 4503599628419072 (-21) (by decide) := by
  rfl

theorem unpack_high : Stored.unpack (maxI32 + 0.5 : Float) =
    .finite .positive 9007199252643840 (-22) (by decide) := by
  rfl

theorem unpack_half : Stored.unpack (0.5 : Float) =
    .finite .positive 4503599627370496 (-53) (by decide) := by
  rfl

theorem isFinite_half : IsFinite (0.5 : Float) := by
  rw [IsFinite, unpack_half]
  rfl

theorem rat_half : rat (0.5 : Float) = 1 / 2 := by
  rw [rat, unpack_half, toRat, signed]
  norm_num

theorem isSome_of_scaled {f : Float32} {scale : Float} (hf : IsFinite f)
    (hs : IsFinite (widen f * scale)) (hr : |rat (widen f * scale)| ≤ 2147483000) :
    (scaleToI32 f scale).isSome = true := by
  obtain ⟨hl, hu⟩ := abs_le.mp hr
  have hlow : ¬widen f * scale < minI32 - 0.5 := by
    refine not_lt_of_le ((IsFinite.le_iff (by rw [IsFinite, unpack_low]; rfl) hs).mpr ?_)
    refine le_trans ?_ hl
    rw [rat, unpack_low, toRat, signed]
    norm_num
  have hhigh : ¬widen f * scale > maxI32 + 0.5 := by
    refine not_lt_of_le ((IsFinite.le_iff hs (by rw [IsFinite, unpack_high]; rfl)).mpr ?_)
    refine hu.trans ?_
    rw [rat, unpack_high, toRat, signed]
    norm_num
  have hrep : Representable .binary64 (2147483001 : ℕ) := representable_natCast (by decide)
  have hlim : ((2147483001 : ℕ) : ℚ) < limit .binary64 := by
    calc ((2147483001 : ℕ) : ℚ)
      _ < 2 ^ 53          := by norm_num
      _ ≤ limit .binary64 := pow_le_pow_right₀ (by norm_num) (by decide)
  have hround : |(truncate (if widen f * scale ≥ 0 then widen f * scale + 0.5
      else widen f * scale - 0.5) : ℚ)| ≤ (2147483001 : ℕ) := by
    refine abs_truncate_le.trans ?_
    split_ifs
    · obtain ⟨hn, hv⟩ := hs.add isFinite_half
      refine (finite_of_ofRat hn hv hrep hlim ?_).2
      rw [rat_half, abs_le]
      constructor <;> push_cast <;> linarith
    · obtain ⟨hn, hv⟩ := hs.sub isFinite_half
      refine (finite_of_ofRat hn hv hrep hlim ?_).2
      rw [rat_half, abs_le]
      constructor <;> push_cast <;> linarith
  obtain ⟨h₁, h₂⟩ := abs_le.mp hround
  have h₁ : -2147483001 ≤ truncate (if widen f * scale ≥ 0 then widen f * scale + 0.5
      else widen f * scale - 0.5) := by exact_mod_cast h₁
  have h₂ : truncate (if widen f * scale ≥ 0 then widen f * scale + 0.5
      else widen f * scale - 0.5) ≤ 2147483001 := by exact_mod_cast h₂
  have hfin : f.isFinite = true := hf
  rw [scaleToI32, if_neg (by simp [hfin])]
  dsimp only
  rw [if_neg (not_or.mpr ⟨hlow, hhigh⟩), if_neg (by omega)]
  rfl

theorem scaleToI32_isSome {f : Float32} {scale : ℕ} (hf : IsFinite f) (hs : scale ≤ 1000000)
    (h : |rat f| * scale ≤ 2147483000) : (scaleToI32 f (.ofNat scale)).isSome = true := by
  obtain ⟨hsf, hsr⟩ := exact_ofNat (hs.trans_lt (by decide))
  obtain ⟨hw, hwr⟩ := hf.widen
  obtain ⟨hn, hv⟩ := hw.mul hsf
  rw [hwr, hsr] at hv
  have hr : Representable .binary64 ((2147483000 : ℕ) : ℚ) := representable_natCast (by decide)
  have hl : ((2147483000 : ℕ) : ℚ) < limit .binary64 := by
    calc ((2147483000 : ℕ) : ℚ)
      _ < 2 ^ 53          := by norm_num
      _ ≤ limit .binary64 := pow_le_pow_right₀ (by norm_num) (by decide)
  obtain ⟨hfin, hle⟩ := finite_of_ofRat hn hv hr hl (by
    rw [abs_mul, Nat.abs_cast]
    exact_mod_cast h)
  exact isSome_of_scaled hf hfin (by exact_mod_cast hle)

theorem isFinite_of_isSome {f : Float32} {scale : Float} (h : (scaleToI32 f scale).isSome = true) :
    IsFinite f := by
  by_contra hn
  have : ¬f.isFinite = true := hn
  rw [scaleToI32, if_pos this] at h
  cases h

end SafetyIsland.Can
