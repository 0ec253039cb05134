import SafetyIsland.Ieee.Infinite
import SafetyIsland.Messages

namespace SafetyIsland

open Ieee Float.Model

namespace Clock

def toDouble (rosTime : TimeMsg) : Float :=
  Float.ofInt (rosTime.sec.toInt * nanoPerSec + rosTime.nanosec.toNat) / 1e9

theorem isFinite_ofNat {n : ℕ} (h : n ≤ 2 ^ 63) :
    IsFinite (Float.ofNat n) ∧ rat (Float.ofNat n) ≤ 2 ^ 63 := by
  obtain ⟨hn, hv⟩ := val_ofNat n
  have h₀ : ofRat .binary64 0 = ((0 : ℚ) : Ext) := by decide +kernel
  have h₁ : ofRat .binary64 (2 ^ 63) = ((2 ^ 63 : ℚ) : Ext) := by decide +kernel
  have hl : ((0 : ℚ) : Ext) ≤ val (Float.ofNat n) := by
    rw [hv, ← h₀]
    exact ofRat_mono n.cast_nonneg
  have hu : val (Float.ofNat n) ≤ ((2 ^ 63 : ℚ) : Ext) := by
    rw [hv, ← h₁]
    exact ofRat_mono (by exact_mod_cast h)
  have hf := isFinite_of_between hn hl hu
  rw [hf.val_eq] at hu
  exact ⟨hf, WithBotTop.coe_le_coe.mp hu⟩

theorem rat_1e9 : IsFinite (1e9 : Float) ∧ rat (1e9 : Float) = 1000000000 := by
  decide +kernel

-- A number of nanoseconds is zero or so large that its quotient does not underflow.
theorem inRange_ofNat {n : ℕ} (hf : IsFinite (Float.ofNat n)) : InRange (Float.ofNat n) 1e9 := by
  refine (rat_ofNat n hf).imp_right fun h => ?_
  have hm : (2 : ℚ) ^ Format.binary64.minExponent ≤ 1 / 1000000000 := by decide +kernel
  rw [rat_1e9.2, abs_of_nonneg (by positivity)]
  exact hm.trans (by gcongr)

theorem isFinite_div {x : Float} (hf : IsFinite x) (hr : InRange x 1e9)
    (hb : |rat x| ≤ 2 ^ 63) : IsFinite (x / 1e9) := by
  obtain ⟨hn, hv⟩ := hf.div rat_1e9.1 (by rw [rat_1e9.2]; norm_num) hr
  rw [rat_1e9.2] at hv
  have ⟨hl, hu⟩ := abs_le.mp hb
  have h₁ : ofRat .binary64 (2 ^ 63) = ((2 ^ 63 : ℚ) : Ext) := by decide +kernel
  have h₀ : ofRat .binary64 (-2 ^ 63) = ((-2 ^ 63 : ℚ) : Ext) := by decide +kernel
  refine isFinite_of_between hn (a := -2 ^ 63) (b := 2 ^ 63) ?_ ?_
  · rw [hv, ← h₀]
    exact ofRat_mono (by linarith)
  · rw [hv, ← h₁]
    exact ofRat_mono (by linarith)

theorem isFinite_toDouble (t : TimeMsg) : IsFinite (toDouble t) := by
  have hs := t.sec.toInt_lt
  have hs' := t.sec.le_toInt
  have hn := t.nanosec.toNat_lt
  rw [toDouble]
  rcases h : t.sec.toInt * nanoPerSec + t.nanosec.toNat with n | n <;>
    simp only [nanoPerSec, Int.ofNat_eq_natCast] at h
  case ofNat =>
    obtain ⟨hf, hl⟩ := isFinite_ofNat (show n ≤ 2 ^ 63 by omega)
    change IsFinite (Float.ofNat n / 1e9)
    refine isFinite_div hf (inRange_ofNat hf) ?_
    rwa [abs_of_nonneg (rat_nonneg (ofNat_nonneg n) hf)]
  case negSucc =>
    obtain ⟨hf, hl⟩ := isFinite_ofNat (show n + 1 ≤ 2 ^ 63 by omega)
    change IsFinite (-Float.ofNat (n + 1) / 1e9)
    have hneg := hf.neg
    refine isFinite_div hneg.1 ?_ ?_
    · refine (inRange_ofNat hf).imp (fun h => ?_) fun h => ?_
      · rw [hneg.2, h, neg_zero]
      · rwa [hneg.2, neg_div, abs_neg]
    · rwa [hneg.2, abs_neg, abs_of_nonneg (rat_nonneg (ofNat_nonneg _) hf)]

theorem toDouble_mono {s t : TimeMsg} (hs : 0 ≤ s.sec.toInt)
    (h : s.sec.toInt * nanoPerSec + s.nanosec.toNat ≤ t.sec.toInt * nanoPerSec + t.nanosec.toNat) :
    toDouble s ≤ toDouble t := by
  have hb := t.sec.toInt_lt
  have hn := t.nanosec.toNat_lt
  rw [toDouble, toDouble]
  obtain ⟨m, hm⟩ : ∃ m : ℕ, s.sec.toInt * nanoPerSec + s.nanosec.toNat = m :=
    Int.eq_ofNat_of_zero_le (by rw [nanoPerSec]; omega)
  obtain ⟨n, hn⟩ : ∃ n : ℕ, t.sec.toInt * nanoPerSec + t.nanosec.toNat = n :=
    Int.eq_ofNat_of_zero_le (by omega)
  rw [hm, hn] at h ⊢
  have hmn : m ≤ n := by exact_mod_cast h
  have hn' : n ≤ 2 ^ 63 := by rw [nanoPerSec] at hn; omega
  exact fdiv_le_fdiv_right (ofNat_mono hmn) (ofNat_nonneg m) rat_1e9.1
    (by rw [rat_1e9.2]; norm_num) (inRange_ofNat (isFinite_ofNat (hmn.trans hn')).1)
    (inRange_ofNat (isFinite_ofNat hn').1)

end Clock
end SafetyIsland
