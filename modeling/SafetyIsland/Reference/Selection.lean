import SafetyIsland.Reference.Convert
import SafetyIsland.Reference.Real

namespace SafetyIsland.VpReference

open Ieee OnReal

section

variable {s : List ℝ} {t u cap : ℝ} {i j n maxPoints : ℕ}

-- The index `i` is one of those whose entries are closest to `t`.
def Nearest (s : List ℝ) (t : ℝ) (i : ℕ) : Prop :=
  i < s.length ∧ ∀ j < s.length, |s.getD i 0 - t| ≤ |s.getD j 0 - t|

theorem getD_mono (hs : s.Pairwise (· ≤ ·)) (hij : i ≤ j) (hj : j < s.length) :
    s.getD i 0 ≤ s.getD j 0 := by
  have hi : i < s.length := hij.trans_lt hj
  rw [List.getD_eq_getElem _ _ hi, List.getD_eq_getElem _ _ hj]
  rcases hij.lt_or_eq with h | rfl
  · exact List.pairwise_iff_getElem.mp hs i j hi hj h
  · exact le_rfl

noncomputable def lowerBound (s : List ℝ) (t : ℝ) : ℕ :=
  s.findIdx (t ≤ ·)

theorem lt_of_lt_lowerBound (h : i < lowerBound s t) : s.getD i 0 < t := by
  have hi : i < s.length := h.trans_le List.findIdx_le_length
  have hn := List.not_of_lt_findIdx h
  rw [List.getD_eq_getElem _ _ hi]
  exact not_le.mp (by simpa using hn)

theorem le_of_lowerBound_le (hs : s.Pairwise (· ≤ ·)) (h : lowerBound s t ≤ i)
    (hi : i < s.length) : t ≤ s.getD i 0 := by
  have hp : lowerBound s t < s.length := h.trans_lt hi
  have hpos : t ≤ s.getD (lowerBound s t) 0 := by
    rw [List.getD_eq_getElem _ _ hp]
    exact of_decide_eq_true (List.findIdx_getElem (w := hp))
  exact hpos.trans (getD_mono hs h hi)

theorem lowerBound_mono (h : t ≤ u) : lowerBound s t ≤ lowerBound s u := by
  refine List.findIdx_le_findIdx fun v _ hv => ?_
  simp only [decide_eq_true_eq] at hv ⊢
  exact h.trans hv

theorem nearestIndex_eq (s : List ℝ) (t : ℝ) :
    nearestIndex s t =
      if lowerBound s t = 0 then 0
      else if s.length ≤ lowerBound s t then s.length - 1
      else if s.getD (lowerBound s t) 0 - t < t - s.getD (lowerBound s t - 1) 0 then
        lowerBound s t
      else lowerBound s t - 1 := by
  rw [nearestIndex]
  norm_num [lowerBound]

theorem nearestIndex_le_lowerBound : nearestIndex s t ≤ lowerBound s t := by
  rw [nearestIndex_eq]
  split_ifs <;> omega

theorem lowerBound_le_nearestIndex_succ : lowerBound s t ≤ nearestIndex s t + 1 := by
  have hp : lowerBound s t ≤ s.length := List.findIdx_le_length
  rw [nearestIndex_eq]
  split_ifs <;> omega

theorem nearestIndex_lt (hs : s ≠ []) : nearestIndex s t < s.length := by
  have hp : lowerBound s t ≤ s.length := List.findIdx_le_length
  have hl := List.length_pos_iff.mpr hs
  rw [nearestIndex_eq]
  split_ifs <;> omega

theorem dist_le_of_below (hs : s.Pairwise (· ≤ ·)) (hi : s.getD i 0 ≤ t) (hji : j ≤ i)
    (hil : i < s.length) : |s.getD i 0 - t| ≤ |s.getD j 0 - t| := by
  have hj := getD_mono hs hji hil
  rw [abs_of_nonpos (by linarith), abs_of_nonpos (by linarith)]
  linarith

theorem dist_le_of_above (hs : s.Pairwise (· ≤ ·)) (hi : t ≤ s.getD i 0) (hij : i ≤ j)
    (hj : j < s.length) : |s.getD i 0 - t| ≤ |s.getD j 0 - t| := by
  have hj := getD_mono hs hij hj
  rw [abs_of_nonneg (by linarith), abs_of_nonneg (by linarith)]
  linarith

theorem nearestIndex_nearest (hs : s.Pairwise (· ≤ ·)) (hne : s ≠ []) (t : ℝ) :
    Nearest s t (nearestIndex s t) := by
  refine ⟨nearestIndex_lt hne, fun j hj => ?_⟩
  have hp : lowerBound s t ≤ s.length := List.findIdx_le_length
  rw [nearestIndex_eq]
  split_ifs with h₀ hl hd
  case pos => exact dist_le_of_above hs (le_of_lowerBound_le hs h₀.le (by omega)) (by omega) hj
  case pos =>
    exact dist_le_of_below hs (lt_of_lt_lowerBound (by omega)).le (by omega) (by omega)
  all_goals
    have hb : s.getD (lowerBound s t - 1) 0 < t := lt_of_lt_lowerBound (by omega)
    have ha : t ≤ s.getD (lowerBound s t) 0 := le_of_lowerBound_le hs le_rfl (by omega)
    have hbe := abs_of_nonpos (sub_nonpos.mpr hb.le)
    have hae := abs_of_nonneg (sub_nonneg.mpr ha)
    rcases lt_or_ge j (lowerBound s t) with hjp | hjp
  case pos.inl =>
    have := dist_le_of_below hs hb.le (Nat.le_sub_one_of_lt hjp) (by omega)
    linarith
  case pos.inr => exact dist_le_of_above hs ha hjp hj
  case neg.inl => exact dist_le_of_below hs hb.le (Nat.le_sub_one_of_lt hjp) (by omega)
  case neg.inr =>
    have := dist_le_of_above hs ha hjp hj
    linarith

-- Where the lower bounds differ the indices are apart, and else the later target is closer to
-- the entry after it.
theorem nearestIndex_mono (h : t ≤ u) : nearestIndex s t ≤ nearestIndex s u := by
  rcases (lowerBound_mono h (s := s)).lt_or_eq with hlt | heq
  · have := nearestIndex_le_lowerBound (s := s) (t := t)
    have := lowerBound_le_nearestIndex_succ (s := s) (t := u)
    omega
  · rw [nearestIndex_eq, nearestIndex_eq, ← heq]
    split_ifs with h₀ hl ht hu hu
    case neg => linarith
    all_goals omega

-- The loop that keeps an index if it is greater than the last one that it has kept.
def climb (f : ℕ → ℕ) (n : ℕ) : List ℕ :=
  (List.range n).foldl (fun out k =>
    if out = [] ∨ f k > out.getLastD 0 then out ++ [f k] else out) []

theorem climb_succ (f : ℕ → ℕ) (n : ℕ) :
    climb f (n + 1) =
      if climb f n = [] ∨ f n > (climb f n).getLastD 0 then climb f n ++ [f n] else climb f n := by
  simp [climb, List.range_succ]

-- For a monotone sequence the loop leaves out the repetitions and nothing else.
structure Climbed (f : ℕ → ℕ) (n : ℕ) (out : List ℕ) : Prop where
  increasing : out.Pairwise (· < ·)
  mem_iff    : ∀ i, i ∈ out ↔ ∃ k < n, f k = i
  length_le  : out.length ≤ n
  head       : 0 < n → out.head? = some (f 0)
  last       : 0 < n → out.getLast? = some (f (n - 1))

theorem climbed {f : ℕ → ℕ} (hf : Monotone f) (n : ℕ) : Climbed f n (climb f n) := by
  induction n
  case zero => constructor <;> simp [climb]
  case succ n hi =>
    rw [climb_succ]
    rcases Nat.eq_zero_or_pos n with rfl | hn
    · have he : climb f 0 = [] := rfl
      constructor <;> simp [he, eq_comm]
    · have hl := hi.last hn
      have hne : climb f n ≠ [] := by rintro h; simp [h] at hl
      have hd : (climb f n).getLastD 0 = f (n - 1) := by simp [List.getLastD_eq_getLast?, hl]
      have hle : f (n - 1) ≤ f n := hf (Nat.sub_le n 1)
      have hmem (i : ℕ) : (∃ k < n + 1, f k = i) ↔ (∃ k < n, f k = i) ∨ f n = i := by
        constructor
        · rintro ⟨k, hk, rfl⟩
          rcases Nat.lt_succ_iff_lt_or_eq.mp hk with hk | rfl
          · exact .inl ⟨k, hk, rfl⟩
          · exact .inr rfl
        · rintro (⟨k, hk, rfl⟩ | rfl)
          · exact ⟨k, hk.trans n.lt_succ_self, rfl⟩
          · exact ⟨n, n.lt_succ_self, rfl⟩
      simp only [hd, hne, false_or]
      split_ifs with h
      case pos =>
        have hall : ∀ i ∈ climb f n, i < f n := fun i hi' => by
          obtain ⟨k, hk, rfl⟩ := (hi.mem_iff i).mp hi'
          exact (hf (Nat.le_sub_one_of_lt hk)).trans_lt h
        constructor
        case increasing => simpa [List.pairwise_append, hi.increasing] using hall
        case mem_iff    =>
          intro i
          rw [hmem, ← hi.mem_iff]
          simp [eq_comm]
        case length_le  => simpa using hi.length_le
        case head       => simp [List.head?_append, hi.head hn]
        case last       => simp
      case neg =>
        have heq : f (n - 1) = f n := by omega
        constructor
        case increasing => exact hi.increasing
        case mem_iff    =>
          intro i
          rw [hi.mem_iff, hmem, or_iff_left_of_imp]
          exact fun h => ⟨n - 1, by omega, heq.trans h⟩
        case length_le  => exact hi.length_le.trans n.le_succ
        case head       => exact fun _ => hi.head hn
        case last       => simpa [← heq] using hl

noncomputable def extent (s : List ℝ) (cap : ℝ) : ℝ := min cap (s.getLastD 0)

def wanted (s : List ℝ) (maxPoints : ℕ) : ℕ := min maxPoints s.length

noncomputable def target (s : List ℝ) (cap : ℝ) (maxPoints k : ℕ) : ℝ :=
  extent s cap * k / (wanted s maxPoints - 1 : ℕ)

theorem target_zero : target s cap maxPoints 0 = 0 := by
  simp [target]

theorem target_last (h : 2 ≤ wanted s maxPoints) :
    target s cap maxPoints (wanted s maxPoints - 1) = extent s cap := by
  have h : ((wanted s maxPoints - 1 : ℕ) : ℝ) ≠ 0 := by norm_cast; omega
  rw [target, mul_div_assoc, div_self h, mul_one]

theorem target_mono (h : 0 ≤ extent s cap) : Monotone (target s cap maxPoints) := by
  intro k l hkl
  have hkl : (k : ℝ) ≤ l := by exact_mod_cast hkl
  rw [target, target]
  gcongr

theorem nearestIndex_zero (h : s.head? = some 0) : nearestIndex s 0 = 0 := by
  obtain ⟨l, rfl⟩ : ∃ l, s = 0 :: l := by cases s <;> simp_all
  simp [nearestIndex_eq, lowerBound, List.findIdx_cons]

theorem selectIndices_eq (hn : 2 ≤ s.length) (hm : 2 ≤ maxPoints) (h : 0 < extent s cap) :
    selectIndices s cap maxPoints =
      climb (fun k => nearestIndex s (target s cap maxPoints k)) (wanted s maxPoints) := by
  have hne : s ≠ [] := by rintro rfl; simp at hn
  rw [extent] at h
  rw [selectIndices, if_neg hne, if_neg (by omega)]
  simp only [stdMin_real, natCast_real]
  rw [if_neg]
  case hnc => norm_num; simpa using h
  norm_num [climb, target, extent, wanted, ← List.map_eq_flatMap, List.foldl_map]

theorem selectIndices_trivial (hne : s ≠ []) (h : s.length < 2 ∨ extent s cap ≤ 0) :
    selectIndices s cap maxPoints = [0] := by
  have hl := List.length_pos_iff.mpr hne
  rw [selectIndices, if_neg hne, ite_eq_left_iff]
  intro hlen
  obtain h | h := h
  · omega
  · simp only [stdMin_real]
    rw [if_pos]
    norm_num
    simpa [extent] using h

structure Selected (s : List ℝ) (cap : ℝ) (maxPoints : ℕ) (out : List ℕ) : Prop where
  increasing : out.Pairwise (· < ·)
  inRange    : ∀ i ∈ out, i < s.length
  first      : out.head? = some 0
  length_le  : out.length ≤ wanted s maxPoints
  last       : out.getLast? = some (nearestIndex s (extent s cap))
  sound      : ∀ i ∈ out, ∃ k < wanted s maxPoints, Nearest s (target s cap maxPoints k) i
  complete   : ∀ k < wanted s maxPoints, ∃ i ∈ out, Nearest s (target s cap maxPoints k) i

theorem selectIndices_selected (hs : s.Pairwise (· ≤ ·)) (h₀ : s.head? = some 0) (hc : 0 < cap)
    (hm : 2 ≤ maxPoints) : Selected s cap maxPoints (selectIndices s cap maxPoints) := by
  have hne : s ≠ [] := by rintro rfl; simp at h₀
  have hl := List.length_pos_iff.mpr hne
  have hnearest (t : ℝ) := nearestIndex_nearest hs hne t
  by_cases h : s.length < 2 ∨ extent s cap ≤ 0
  · have hsub : s.length < 2 → wanted s maxPoints - 1 = 0 := by rw [wanted]; omega
    have he : s.length < 2 ∨ extent s cap = 0 := by
      obtain h | h := h
      · exact .inl h
      · right
        have hb : 0 ≤ s.getLastD 0 := by
          have := getD_mono hs (Nat.zero_le (s.length - 1)) (by omega)
          obtain ⟨l, rfl⟩ : ∃ l, s = 0 :: l := by cases s <;> simp_all
          simpa [List.getLastD_eq_getLast?, List.getLast?_eq_getElem?] using this
        exact h.antisymm (le_min hc.le hb)
    have ht : target s cap maxPoints = fun _ => 0 := by
      ext k
      obtain he | he := he
      · simp [target, hsub he]
      · simp [target, he]
    have hw : 0 < wanted s maxPoints := lt_min (by omega) hl
    have hz := nearestIndex_zero h₀
    have hn : Nearest s 0 0 := hz ▸ hnearest 0
    rw [selectIndices_trivial hne h]
    constructor
    case last       =>
      obtain he | he := he
      · have := nearestIndex_lt hne (t := extent s cap)
        simp only [List.getLast?_singleton, Option.some.injEq]
        omega
      · simp [he, hz]
    all_goals simp [hl, ht, hn]
    case length_le  => exact hw
    case sound      => exact ⟨0, hw⟩
  · push Not at h
    have hw : 2 ≤ wanted s maxPoints := le_min hm h.1
    have hf : Monotone fun k => nearestIndex s (target s cap maxPoints k) :=
      fun k l hkl => nearestIndex_mono (target_mono h.2.le hkl)
    have hk := climbed hf (wanted s maxPoints)
    rw [selectIndices_eq h.1 hm h.2]
    constructor
    case increasing => exact hk.increasing
    case inRange    =>
      intro i hi
      obtain ⟨k, -, rfl⟩ := (hk.mem_iff i).mp hi
      exact nearestIndex_lt hne
    case first      => rw [hk.head (by omega), target_zero, nearestIndex_zero h₀]
    case length_le  => exact hk.length_le
    case last       => rw [hk.last (by omega), target_last hw]
    case sound      =>
      intro i hi
      obtain ⟨k, hlt, rfl⟩ := (hk.mem_iff i).mp hi
      exact ⟨k, hlt, hnearest _⟩
    case complete   =>
      intro k hlt
      exact ⟨_, (hk.mem_iff _).mpr ⟨k, hlt, rfl⟩, hnearest _⟩

-- The selection for an arc-length list, and `nearestIndex` for any target.
theorem selects_nearest (hs : s.Pairwise (· ≤ ·)) (h₀ : s.head? = some 0) (hc : 0 < cap)
    (hm : 2 ≤ maxPoints) :
    Selected s cap maxPoints (selectIndices s cap maxPoints) ∧
    ∀ t, Nearest s t (nearestIndex s t) :=
  ⟨selectIndices_selected hs h₀ hc hm,
    nearestIndex_nearest hs (by rintro rfl; simp at h₀)⟩

theorem selects_nearest_spaced :
    Selected [0, 1, 1, 3] 2 3 (selectIndices [0, 1, 1, (3 : ℝ)] 2 3) ∧
    ∀ t : ℝ, Nearest [0, 1, 1, 3] t (nearestIndex [0, 1, 1, 3] t) :=
  selects_nearest (by norm_num) rfl two_pos (by decide)

end

namespace Sample

-- `1.75 * 2 ^ -53` and `2 - 2 ^ -52`
def tinyArc : Float := 1.942890293094024e-16
def longArc : Float := 1.9999999999999998

end Sample

-- In doubles the two distances to the target are rounded, here to a tie.
theorem double_misses_nearest :
    nearestIndex [0.0, Sample.tinyArc, Sample.longArc] (1.0 : Float) = 1 ∧
    |rat Sample.longArc - rat (1.0 : Float)| < |rat Sample.tinyArc - rat (1.0 : Float)| := by
  decide +kernel

end SafetyIsland.VpReference
