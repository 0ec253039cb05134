import SafetyIsland.Mpc.ReferenceTrajectory

namespace SafetyIsland.MoveAverageFilter

open MPCUtils OnReal

-- The mean of `k` values from the index `a` on.
noncomputable def mean (f : ℕ → ℝ) (a k : ℕ) : ℝ :=
  (∑ j ∈ Finset.range k, f (a + j)) / k

section

variable {f : ℕ → ℝ} {a a' k k' n N : ℕ} {lo hi : ℝ}

theorem mean_within (hk : 0 < k) (h : ∀ j < k, lo ≤ f (a + j) ∧ f (a + j) ≤ hi) :
    lo ≤ mean f a k ∧ mean f a k ≤ hi := by
  have hpos : (0 : ℝ) < k := by exact_mod_cast hk
  rw [mean, le_div_iff₀ hpos, div_le_iff₀ hpos]
  constructor
  · have := Finset.card_nsmul_le_sum (Finset.range k) (fun j => f (a + j)) lo
      fun j hj => (h j (Finset.mem_range.mp hj)).1
    simpa [mul_comm] using this
  · have := Finset.sum_le_card_nsmul (Finset.range k) (fun j => f (a + j)) hi
      fun j hj => (h j (Finset.mem_range.mp hj)).2
    simpa [mul_comm] using this

theorem mean_le_append (hm : ∀ i j, i ≤ j → j < N → f i ≤ f j) (hk : 0 < k) (hN : a + k < N) :
    mean f a k ≤ mean f a (k + 1) := by
  have hpos : (0 : ℝ) < k := by exact_mod_cast hk
  have hle := (mean_within hk fun j hj =>
    ⟨hm a (a + j) (by omega) (by omega), hm (a + j) (a + k) (by omega) hN⟩).2
  rw [mean, div_le_iff₀ hpos] at hle
  rw [mean, mean, Finset.sum_range_succ, div_le_div_iff₀ hpos (by positivity)]
  push_cast
  linarith

theorem mean_le_drop (hm : ∀ i j, i ≤ j → j < N → f i ≤ f j) (hk : 0 < k) (hN : a + k < N) :
    mean f a (k + 1) ≤ mean f (a + 1) k := by
  have hpos : (0 : ℝ) < k := by exact_mod_cast hk
  have hle := (@mean_within f (a + 1) k (f a) (f (a + k)) hk fun j hj =>
    ⟨hm _ _ (by omega) (by omega), hm _ _ (by omega) hN⟩).1
  rw [mean, le_div_iff₀ hpos] at hle
  rw [mean, mean, Finset.sum_range_succ', div_le_div_iff₀ (by positivity) hpos]
  have hshift (j : ℕ) : f (a + 1 + j) = f (a + (j + 1)) := by rw [Nat.add_right_comm, Nat.add_assoc]
  simp only [Nat.add_zero, hshift] at hle ⊢
  push_cast
  linarith

theorem mean_mono (hm : ∀ i j, i ≤ j → j < N → f i ≤ f j) (hk : 0 < k) (hk' : 0 < k') (ha : a ≤ a')
    (hb : a + k ≤ a' + k') (hN : a' + k' ≤ N) : mean f a k ≤ mean f a' k' := by
  have happend : mean f a k ≤ mean f a (a' + k' - a) := by
    obtain ⟨d, hd⟩ := Nat.exists_eq_add_of_le hb
    rw [show a' + k' - a = k + d by omega]
    have hdN : a + k + d ≤ N := by omega
    clear hd hb hN ha
    induction d with
    | zero => exact le_rfl
    | succ d ih => exact (ih (by omega)).trans (mean_le_append hm (by omega) (by omega))
  have hdrop : mean f a (a' + k' - a) ≤ mean f a' k' := by
    obtain ⟨d, rfl⟩ := Nat.exists_eq_add_of_le ha
    rw [show a + d + k' - a = k' + d by omega]
    clear hb happend ha
    induction d generalizing a with
    | zero => exact le_rfl
    | succ d ih =>
      have h := mean_le_drop hm (show 0 < k' + d by omega) (show a + (k' + d) < N by omega)
      have := @ih (a + 1) (by omega)
      rw [show a + 1 + d = a + (d + 1) by omega] at this
      exact h.trans this
  exact happend.trans hdrop

theorem mean_affine {p q : ℝ} (h : ∀ j < 2 * n + 1, f (a + j) = p + q * ((a + j : ℕ) : ℝ)) :
    mean f a (2 * n + 1) = p + q * ((a + n : ℕ) : ℝ) := by
  have hsum : ∑ j ∈ Finset.range (2 * n + 1), (j : ℝ) = (2 * n + 1) * n := by
    clear h
    induction n with
    | zero => simp
    | succ n ih =>
      rw [show 2 * (n + 1) + 1 = 2 * n + 1 + 1 + 1 by omega, Finset.sum_range_succ,
        Finset.sum_range_succ, ih]
      push_cast
      ring
  rw [mean, Finset.sum_congr rfl fun j hj => h j (Finset.mem_range.mp hj), div_eq_iff (by positivity)]
  push_cast
  rw [Finset.sum_add_distrib, ← Finset.mul_sum, Finset.sum_add_distrib, hsum]
  simp
  ring

end

section

variable {u v : List ℝ} {num size i n : ℕ}

theorem numTmp_le (hi : i < size) : numTmp num size i ≤ i ∧ i + numTmp num size i < size := by
  rw [numTmp]
  split_ifs <;> omega

theorem numTmp_first : numTmp num size 0 = 0 := by
  rw [numTmp]
  split_ifs <;> omega

theorem numTmp_last : numTmp num (size + 1) size = 0 := by
  rw [numTmp]
  split_ifs <;> omega

theorem numTmp_succ (hi : i + 1 < size) :
    numTmp num size (i + 1) ≤ numTmp num size i + 1 ∧
      numTmp num size i ≤ numTmp num size (i + 1) + 1 := by
  rw [numTmp, numTmp]
  split_ifs <;> omega

theorem window_eq (hn : n ≤ i) (hi : i + n < u.length) :
    (window u i n).1 / (window u i n).2 = mean (fun j => u.getD j 0) (i - n) (2 * n + 1) := by
  have h0 : (0.0 : ℝ) = 0 := by norm_num
  have h1 : (1.0 : ℝ) = 1 := by norm_num
  have hfold (k : ℕ) (hk : k ≤ 2 * n + 1) : (List.range k).foldl (fun s j =>
      if n ≤ i + j ∧ i + j - n < u.length then (s.1 + u.getD (i + j - n) 0.0, s.2 + 1.0) else s)
      ((0.0, 0.0) : ℝ × ℝ) = (∑ j ∈ Finset.range k, u.getD (i - n + j) 0, (k : ℝ)) := by
    induction k with
    | zero => simp [h0]
    | succ k ih =>
      rw [List.range_succ, List.foldl_append, ih (by omega), Finset.sum_range_succ, List.foldl_cons,
        List.foldl_nil, if_pos (by omega), h0, h1, show i + k - n = i - n + k by omega]
      push_cast
      rfl
  rw [window, hfold _ le_rfl]
  rfl

-- What the filter does to the values of a path.
structure Averaged (u v : List ℝ) : Prop where
  length   : v.length = u.length
  first    : v.getD 0 0 = u.getD 0 0
  last     : v.getD (u.length - 1) 0 = u.getD (u.length - 1) 0
  within   : ∀ lo hi, (∀ x ∈ u, lo ≤ x ∧ x ≤ hi) → ∀ x ∈ v, lo ≤ x ∧ x ≤ hi
  -- Values in order stay in order.
  monotone : (∀ i j, i ≤ j → j < u.length → u.getD i 0 ≤ u.getD j 0) →
    ∀ i, i + 1 < u.length → v.getD i 0 ≤ v.getD (i + 1) 0
  -- Values on a line stay where they are.
  affine   : ∀ p q : ℝ, (∀ i < u.length, u.getD i 0 = p + q * i) → v = u

-- The mean value that the filter puts at an index.
noncomputable def average (num : ℕ) (u : List ℝ) (i : ℕ) : ℝ :=
  mean (fun j => u.getD j 0) (i - numTmp num u.length i) (2 * numTmp num u.length i + 1)

theorem filtVector_eq (h : num ≤ u.length) :
    filtVector num u = some ((List.range u.length).map (average num u)) := by
  rw [filtVector, if_neg h.not_gt]
  congr 1
  refine List.map_congr_left fun i hi => ?_
  obtain ⟨h₁, h₂⟩ := @numTmp_le num u.length i (List.mem_range.mp hi)
  exact window_eq h₁ h₂

theorem average_of_zero (h : numTmp num u.length i = 0) : average num u i = u.getD i 0 := by
  simp [average, h, mean]

theorem average_affine {p q : ℝ} (h : ∀ i < u.length, u.getD i 0 = p + q * i) (hi : i < u.length) :
    average num u i = u.getD i 0 := by
  obtain ⟨h₁, h₂⟩ := @numTmp_le num u.length i hi
  rw [average, h i hi]
  rw [mean_affine fun j hj => h _ (by omega), Nat.sub_add_cancel h₁]

theorem filtVector_averages (h : num ≤ u.length) :
    ∃ v, filtVector num u = some v ∧ Averaged u v := by
  refine ⟨_, filtVector_eq h, ?_⟩
  have hget (i : ℕ) (hi : i < u.length) :
      ((List.range u.length).map (average num u)).getD i 0 = average num u i := by
    simp [List.getD_eq_getElem?_getD, hi]
  constructor
  case length => simp
  case first =>
    rcases u.length.eq_zero_or_pos with hz | hpos
    · simp [List.length_eq_zero_iff.mp hz]
    · rw [hget 0 hpos, average_of_zero numTmp_first]
  case last =>
    rcases hz : u.length with _ | n
    · simp [List.length_eq_zero_iff.mp hz]
    · rw [← hz, hget _ (by omega), average_of_zero]
      rw [hz]
      exact numTmp_last
  case within =>
    intro lo hi hb x hx
    obtain ⟨i, hi', rfl⟩ := List.mem_map.mp hx
    obtain ⟨h₁, h₂⟩ := @numTmp_le num u.length i (List.mem_range.mp hi')
    refine mean_within (by omega) fun j hj => ?_
    have hlt : i - numTmp num u.length i + j < u.length := by omega
    rw [List.getD_eq_getElem _ _ hlt]
    exact hb _ (List.getElem_mem hlt)
  case monotone =>
    intro hm i hi
    rw [hget i (by omega), hget (i + 1) hi]
    obtain ⟨h₁, h₂⟩ := @numTmp_le num u.length i (by omega)
    obtain ⟨h₃, h₄⟩ := @numTmp_le num u.length (i + 1) hi
    obtain ⟨h₅, h₆⟩ := @numTmp_succ num u.length i hi
    exact mean_mono hm (by omega) (by omega) (by omega) (by omega) (by omega)
  case affine =>
    intro p q hu
    refine List.ext_getElem (by simp) fun i h₁ h₂ => ?_
    have := @average_affine u num i p q hu h₂
    rw [List.getD_eq_getElem _ _ h₂] at this
    simpa using this

theorem filtVector_averages_corner :
    ∃ v, filtVector 2 [0, 0, 0, 1, (2 : ℝ)] = some v ∧ Averaged [0, 0, 0, 1, 2] v :=
  filtVector_averages (by decide)

end

end SafetyIsland.MoveAverageFilter

namespace SafetyIsland.MPCUtils

open UniverseUtils OnReal Lateral

-- Points on a circle around `(cx, cy)`, counterclockwise for `s = 1` and clockwise for `s = -1`.
structure OnArc (t : MPCTrajectory ℝ) (cx cy r s : ℝ) (angle : ℕ → ℝ) : Prop where
  columns : t.y.length = t.x.length
  x       : ∀ i < t.x.length, t.x.getD i 0 = cx + r * Real.cos (angle i)
  y       : ∀ i < t.x.length, t.y.getD i 0 = cy + s * (r * Real.sin (angle i))
  radius  : 0 < r
  sense   : s = 1 ∨ s = -1
  forward : ∀ i j, i < j → j < t.x.length → angle i < angle j
  turn    : ∀ i < t.x.length, angle i < angle 0 + 2 * Real.pi

section

variable {t : MPCTrajectory ℝ} {cx cy r s a b : ℝ} {angle : ℕ → ℝ} {i j k n num L : ℕ}

theorem OnArc.pointAt (h : OnArc t cx cy r s angle) (hi : i < t.x.length) :
    t.pointAt i = ⟨cx + r * Real.cos (angle i), cy + s * (r * Real.sin (angle i)), 0⟩ := by
  have h0 : (0.0 : ℝ) = 0 := by norm_num
  rw [MPCTrajectory.pointAt, h0, h.x i hi, h.y i hi]

theorem OnArc.chord (h : OnArc t cx cy r s angle) (hi : i < t.x.length) (hj : j < t.x.length) :
    UniverseUtils.calcDistance2d (t.pointAt i) (t.pointAt j) =
      2 * r * |Real.sin ((angle i - angle j) / 2)| := by
  have hs : s ^ 2 = 1 := by obtain rfl | rfl := h.sense <;> norm_num
  have hc : Real.cos (angle i - angle j) = 1 - 2 * Real.sin ((angle i - angle j) / 2) ^ 2 := by
    rw [← Real.cos_sq_add_sin_sq ((angle i - angle j) / 2)]
    have := Real.cos_two_mul ((angle i - angle j) / 2)
    rw [mul_div_cancel₀ _ two_ne_zero] at this
    have := Real.cos_sq_add_sin_sq ((angle i - angle j) / 2)
    linarith
  rw [h.pointAt hi, h.pointAt hj]
  show √((cx + r * Real.cos (angle i) - (cx + r * Real.cos (angle j))) ^ 2 +
    (cy + s * (r * Real.sin (angle i)) - (cy + s * (r * Real.sin (angle j)))) ^ 2) = _
  rw [show (cx + r * Real.cos (angle i) - (cx + r * Real.cos (angle j))) ^ 2 +
      (cy + s * (r * Real.sin (angle i)) - (cy + s * (r * Real.sin (angle j)))) ^ 2 =
      (2 * r * Real.sin ((angle i - angle j) / 2)) ^ 2 by
    have h₁ := Real.cos_sq_add_sin_sq (angle i)
    have h₂ := Real.cos_sq_add_sin_sq (angle j)
    have h₃ := Real.cos_sub (angle i) (angle j)
    linear_combination (r ^ 2 * (Real.sin (angle i) - Real.sin (angle j)) ^ 2) * hs + r ^ 2 * h₁ +
      r ^ 2 * h₂ - 2 * r ^ 2 * hc + 2 * r ^ 2 * h₃]
  rw [Real.sqrt_sq_eq_abs, abs_mul, abs_of_pos (by have := h.radius; positivity : 0 < 2 * r)]

theorem sin_add_sin_sub (a b : ℝ) :
    Real.sin a + Real.sin b - Real.sin (a + b) =
      4 * (Real.sin (a / 2) * Real.sin (b / 2) * Real.sin ((a + b) / 2)) := by
  have ha := Real.sin_two_mul (a / 2)
  have hb := Real.sin_two_mul (b / 2)
  have hab := Real.sin_two_mul ((a + b) / 2)
  rw [mul_div_cancel₀ _ two_ne_zero] at ha hb hab
  rw [ha, hb, hab, add_div, Real.sin_add, Real.cos_add]
  have h₁ := Real.sin_sq_add_cos_sq (a / 2)
  have h₂ := Real.sin_sq_add_cos_sq (b / 2)
  linear_combination (-2 * Real.sin (b / 2) * Real.cos (b / 2)) * h₁ +
    (-2 * Real.sin (a / 2) * Real.cos (a / 2)) * h₂

theorem OnArc.sin_pos (h : OnArc t cx cy r s angle) (hij : i < j) (hj : j < t.x.length) :
    0 < Real.sin ((angle j - angle i) / 2) := by
  have hlt := h.forward i j hij hj
  have hturn := h.turn j hj
  have hle : angle 0 ≤ angle i := by
    rcases i.eq_zero_or_pos with rfl | hi
    · exact le_rfl
    · exact (h.forward 0 i hi (hij.trans hj)).le
  exact Real.sin_pos_of_pos_of_lt_pi (by linarith) (by linarith)

theorem OnArc.curvature (h : OnArc t cx cy r s angle) (hij : i < j) (hjk : j < k)
    (hk : k < t.x.length)
    (hd : 1e-10 ≤ UniverseUtils.calcDistance2d (t.pointAt i) (t.pointAt j) *
      UniverseUtils.calcDistance2d (t.pointAt j) (t.pointAt k) *
      UniverseUtils.calcDistance2d (t.pointAt k) (t.pointAt i)) :
    calcCurvature (t.pointAt i) (t.pointAt j) (t.pointAt k) = s / r := by
  have hj := hjk.trans hk
  have hi := hij.trans hj
  have hr := h.radius
  have h₁ := h.sin_pos hij hj
  have h₂ := h.sin_pos hjk hk
  have h₃ := h.sin_pos (hij.trans hjk) hk
  have hneg (a b : ℝ) : (a - b) / 2 = -((b - a) / 2) := by ring
  have hden : UniverseUtils.calcDistance2d (t.pointAt i) (t.pointAt j) *
      UniverseUtils.calcDistance2d (t.pointAt j) (t.pointAt k) *
      UniverseUtils.calcDistance2d (t.pointAt k) (t.pointAt i) =
      8 * r ^ 3 * (Real.sin ((angle j - angle i) / 2) * Real.sin ((angle k - angle j) / 2) *
        Real.sin ((angle k - angle i) / 2)) := by
    rw [h.chord hi hj, h.chord hj hk, h.chord hk hi, hneg (angle i) (angle j),
      hneg (angle j) (angle k), Real.sin_neg, Real.sin_neg, abs_neg, abs_neg, abs_of_pos h₁, abs_of_pos h₂, abs_of_pos h₃]
    ring
  have hpos : 0 < 8 * r ^ 3 * (Real.sin ((angle j - angle i) / 2) *
      Real.sin ((angle k - angle j) / 2) * Real.sin ((angle k - angle i) / 2)) := by positivity
  have hsum := sin_add_sin_sub (angle j - angle i) (angle k - angle j)
  rw [show angle j - angle i + (angle k - angle j) = angle k - angle i by ring] at hsum
  have h0 : ¬|UniverseUtils.calcDistance2d (t.pointAt i) (t.pointAt j) *
      UniverseUtils.calcDistance2d (t.pointAt j) (t.pointAt k) *
      UniverseUtils.calcDistance2d (t.pointAt k) (t.pointAt i)| < 1e-10 := by
    rw [not_lt, hden, abs_of_pos hpos, ← hden]
    exact hd
  refine (if_neg h0).trans ?_
  rw [hden, h.pointAt hi, h.pointAt hj, h.pointAt hk, div_eq_div_iff hpos.ne' hr.ne']
  have h2 : (2.0 : ℝ) = 2 := by norm_num
  simp only [h2]
  rw [Real.sin_sub, Real.sin_sub, Real.sin_sub] at hsum
  linear_combination (2 * s * r ^ 3) * hsum

theorem getD_foldl_set {is : List ℕ} {f : ℕ → ℝ} (xs : List ℝ) (h : ∀ i ∈ is, i < xs.length) :
    (is.foldl (fun v i => v.set i (f i)) xs).getD j 0 = if j ∈ is then f j else xs.getD j 0 := by
  induction is using List.reverseRecOn with
  | nil => simp
  | append_singleton is i ih =>
    have hl : i < (is.foldl (fun v i => v.set i (f i)) xs).length := by
      rw [length_foldl_set fun _ _ => by simp]
      exact h i (by simp)
    rw [List.foldl_append, List.foldl_cons, List.foldl_nil, getD_set hl,
      ih fun k hk => h k (by simp [hk])]
    simp only [List.mem_append, List.mem_singleton]
    split_ifs <;> simp_all

theorem getD_copied {xs : List ℝ} {c : ℝ} (hn : xs.length = n) (hL : 2 * L + 1 ≤ n) (hk : k ≤ L)
    (hc : ∀ j, L ≤ j → j + L < n → xs.getD j 0 = c) (hj : j < k ∨ L ≤ j ∧ j + L < n ∨ n ≤ j + k)
    (hjn : j < n) :
    ((List.range k).foldl (fun v i =>
      (v.set i (v.getD (min L (n - 1)) 0)).set (n - i - 1)
        ((v.set i (v.getD (min L (n - 1)) 0)).getD (max (n - L - 1) 0) 0)) xs).getD j 0 = c := by
  induction k generalizing j with
  | zero =>
    obtain hj | hj | hj := hj
    · omega
    · exact hc j hj.1 hj.2
    · omega
  | succ k ih =>
    rw [List.range_succ, List.foldl_append, List.foldl_cons, List.foldl_nil]
    generalize hv : (List.range k).foldl _ xs = v at *
    have hlen : v.length = n := by rw [← hv, length_foldl_set fun _ _ => by simp, hn]
    have hleft : v.getD (min L (n - 1)) 0 = c :=
      ih (by omega) (.inr (.inl ⟨by omega, by omega⟩)) (by omega)
    have hright : (v.set k c).getD (max (n - L - 1) 0) 0 = c := by
      rw [getD_set (by omega), if_neg (by omega)]
      exact ih (by omega) (.inr (.inl ⟨by omega, by omega⟩)) (by omega)
    rw [hleft, hright, getD_set (by simp; omega), getD_set (by omega)]
    split_ifs
    · rfl
    · rfl
    · exact ih (by omega) (by omega) hjn

theorem calcDistance2d_comm (p q : PointMsg ℝ) :
    UniverseUtils.calcDistance2d p q = UniverseUtils.calcDistance2d q p := by
  show √((p.x - q.x) ^ 2 + (p.y - q.y) ^ 2) = √((q.x - p.x) ^ 2 + (q.y - p.y) ^ 2)
  rw [sub_sq_comm p.x, sub_sq_comm p.y]

-- On a circle, every point has the curvature of the circle, also the first and the last ones.
theorem calcTrajectoryCurvature_arc (h : OnArc t cx cy r s angle) (hn : 3 ≤ t.x.length)
    (hnum : 0 < num) (hd : ∀ i j, i < j → j < t.x.length →
      5e-4 ≤ UniverseUtils.calcDistance2d (t.pointAt i) (t.pointAt j)) (hj : j < t.x.length) :
    (calcTrajectoryCurvature num t).getD j 0 = s / r := by
  have h0 : (0.0 : ℝ) = 0 := by norm_num
  have hL : 0 < min num ((t.x.length - 1) / 2) ∧
      2 * min num ((t.x.length - 1) / 2) + 1 ≤ t.x.length := by omega
  rw [calcTrajectoryCurvature]
  simp only [h0]
  generalize min num ((t.x.length - 1) / 2) = L at hL
  have hthree (i : ℕ) (hi : L ≤ i) (hi' : i + L < t.x.length) :
      calcCurvature (t.pointAt (i - L)) (t.pointAt i) (t.pointAt (i + L)) = s / r := by
    refine h.curvature (by omega) (by omega) hi' ?_
    have h₁ := hd (i - L) i (by omega) (by omega)
    have h₂ := hd i (i + L) (by omega) hi'
    have h₃ := hd (i - L) (i + L) (by omega) hi'
    rw [calcDistance2d_comm (t.pointAt (i + L))]
    calc (1e-10 : ℝ) ≤ 5e-4 * 5e-4 * 5e-4 := by norm_num
      _ ≤ _ := by gcongr
  rw [show min L t.x.length = L by omega]
  refine getD_copied ?_ hL.2 le_rfl (fun i hi hi' => ?_) (by omega) hj
  · rw [length_foldl_set fun _ _ => by simp, List.length_replicate]
  · have hmem : i ∈ List.range' L (t.x.length - L - L) := by
      rw [List.mem_range'_1]
      omega
    rw [getD_foldl_set, if_pos hmem, hthree i hi hi']
    intro k hk
    rw [List.mem_range'_1] at hk
    rw [List.length_replicate]
    omega

end

section

local instance atLeastTwo_two : Nat.AtLeastTwo 2 := ⟨by decide⟩
local instance atLeastTwo_five : Nat.AtLeastTwo 5 := ⟨by decide⟩

-- Three points on half of the unit circle.
noncomputable def halfTurn : MPCTrajectory ℝ :=
  ⟨[1, 0, -1], [0, 1, 0], [0, 0, 0], [0, 0, 0], [5, 5, 5], [0, 0, 0], [0, 0, 0], [0, 1, 2]⟩

end

theorem halfTurn_onArc : OnArc halfTurn 0 0 1 1 fun i => i * (Real.pi / 2) where
  columns := rfl
  x i hi  := by
    have hi : i < 3 := hi
    interval_cases i <;> norm_num [halfTurn, mul_div_cancel₀]
  y i hi  := by
    have hi : i < 3 := hi
    interval_cases i <;> norm_num [halfTurn, mul_div_cancel₀]
  radius  := one_pos
  sense   := .inl rfl
  forward i j hij _ := by
    have := Real.pi_pos
    have hij : (i : ℝ) < j := by exact_mod_cast hij
    show (i : ℝ) * (Real.pi / 2) < j * (Real.pi / 2)
    gcongr
  turn i hi := by
    have := Real.pi_pos
    have hi : (i : ℝ) < 3 := by exact_mod_cast (show i < 3 from hi)
    push_cast
    nlinarith

theorem calcTrajectoryCurvature_arc_halfTurn :
    (calcTrajectoryCurvature 1 halfTurn).getD 2 0 = 1 / 1 := by
  refine calcTrajectoryCurvature_arc halfTurn_onArc le_rfl one_pos (fun i j hij hj => ?_) (by decide)
  have hj : j < 3 := hj
  refine Real.le_sqrt_of_sq_le ?_
  interval_cases j <;> interval_cases i <;> norm_num [halfTurn, MPCTrajectory.pointAt]

end SafetyIsland.MPCUtils
