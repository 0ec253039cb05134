import SafetyIsland.Reference.Selection

namespace SafetyIsland.VpReference

open OnReal

section

variable {α : Type} [Scalar α] [Libm α]

-- The `k`-th of `n` samples on the way from `a` to `b`.
def samplePoint (a b : Pose2D α) (dyaw : α) (n k : ℕ) : Pose2D α :=
  let f := (k : α) / (n : α)
  { x   := a.x + (b.x - a.x) * f
    y   := a.y + (b.y - a.y) * f
    yaw := wrapAngle (a.yaw + dyaw * f) }

-- The densification without a cap, which is not in the source.
def densifyFrom (stepM : α) (a : Pose2D α) : List (Pose2D α) → List (Pose2D α)
  | []      => []
  | b :: bs =>
    let seg := Libm.hypot (b.x - a.x) (b.y - a.y)
    if seg ≤ 1e-9 then densifyFrom stepM b bs
    else
      let dyaw := wrapAngle (b.yaw - a.yaw)
      let n := max 1 (Scalar.ceilToInt (stdMin (seg / stepM) 1.0e6))
      (List.range' 1 n.toNat).map (samplePoint a b dyaw n.toNat) ++ densifyFrom stepM b bs

def densify (pts : List (Pose2D α)) (stepM : α) : List (Pose2D α) :=
  match pts with
  | a :: b :: bs => a :: densifyFrom stepM a (b :: bs)
  | _            => pts

-- The points are pushed until the arc length reaches the cap.
def Walk.extend (arcCapM : α) : List (Pose2D α) → Walk α → Walk α
  | [],      w => w
  | p :: ps, w =>
    if (w.push p arcCapM).full then w.push p arcCapM else extend arcCapM ps (w.push p arcCapM)

variable {arcCapM stepM dyaw : α} {a b : Pose2D α} {n : ℕ}

theorem resampleSegment_eq (ks : List ℕ) (w : Walk α) :
    resampleSegment a b dyaw n arcCapM ks w = w.extend arcCapM (ks.map (samplePoint a b dyaw n)) := by
  induction ks generalizing w with
  | nil => rfl
  | cons k ks ih =>
    have hstep : resampleSegment a b dyaw n arcCapM (k :: ks) w =
        if (w.push (samplePoint a b dyaw n k) arcCapM).full then
          w.push (samplePoint a b dyaw n k) arcCapM
        else
          resampleSegment a b dyaw n arcCapM ks (w.push (samplePoint a b dyaw n k) arcCapM) := rfl
    rw [hstep, List.map_cons, Walk.extend, ih]

theorem Walk.extend_append (ps qs : List (Pose2D α)) {w : Walk α} (hw : w.full = false) :
    w.extend arcCapM (ps ++ qs) =
      if (w.extend arcCapM ps).full then w.extend arcCapM ps
      else (w.extend arcCapM ps).extend arcCapM qs := by
  induction ps generalizing w with
  | nil => simp [extend, hw]
  | cons p ps ih =>
    rw [List.cons_append, extend, extend]
    split
    case isTrue    => simp
    case isFalse h => exact ih (Bool.eq_false_iff.mpr h)

theorem resampleFrom_eq (bs : List (Pose2D α)) {w : Walk α} (hw : w.full = false) :
    resampleFrom stepM arcCapM a bs w = w.extend arcCapM (densifyFrom stepM a bs) := by
  induction bs generalizing a w with
  | nil => rfl
  | cons b bs ih =>
    rw [resampleFrom, densifyFrom]
    dsimp only
    split
    case isTrue => exact ih hw
    case isFalse =>
      rw [Walk.extend_append _ _ hw, resampleSegment_eq]
      split
      case isTrue    => rfl
      case isFalse h => exact ih (Bool.eq_false_iff.mpr h)

theorem Walk.out_extend (ps : List (Pose2D α)) {w : Walk α} {q : Pose2D α}
    (hq : w.out.getLast? = some q) :
    (w.extend arcCapM ps).out = w.out ++
      ps.take ((cumulativeArcLengthsFrom w.arc q ps).findIdx (fun s => s ≥ arcCapM) + 1) := by
  induction ps generalizing w q with
  | nil => simp [extend]
  | cons p ps ih =>
    have hback : w.out.getLastD p = q := by simp [List.getLastD_eq_getLast?, hq]
    rw [extend, cumulativeArcLengthsFrom, List.findIdx_cons]
    simp only [push, hback, List.take_succ_cons]
    split
    case isTrue h => simp [h]
    case isFalse h =>
      rw [ih (w := ⟨w.out ++ [p], _, _⟩) (q := p) (by simp)]
      simp [h]

theorem length_cumulativeArcLengthsFrom (s : α) (ps : List (Pose2D α)) :
    (cumulativeArcLengthsFrom s a ps).length = ps.length := by
  induction ps generalizing s a with
  | nil => rfl
  | cons p ps ih => exact congrArg (· + 1) (ih _)

theorem length_cumulativeArcLengths (ps : List (Pose2D α)) :
    (cumulativeArcLengths ps).length = ps.length := by
  cases ps with
  | nil => rfl
  | cons p ps => exact congrArg (· + 1) (length_cumulativeArcLengthsFrom _ ps)

theorem cumulativeArcLengthsFrom_take (s : α) (ps : List (Pose2D α)) (k : ℕ) :
    cumulativeArcLengthsFrom s a (ps.take k) = (cumulativeArcLengthsFrom s a ps).take k := by
  induction ps generalizing s a k with
  | nil => simp [cumulativeArcLengthsFrom]
  | cons p ps ih =>
    cases k with
    | zero => rfl
    | succ k => exact congrArg (_ :: ·) (ih _ k)

theorem cumulativeArcLengths_take (ps : List (Pose2D α)) (k : ℕ) :
    cumulativeArcLengths (ps.take k) = (cumulativeArcLengths ps).take k := by
  cases ps with
  | nil => simp [cumulativeArcLengths]
  | cons p ps =>
    cases k with
    | zero => rfl
    | succ k => exact congrArg (_ :: ·) (cumulativeArcLengthsFrom_take _ ps k)

end

section

variable {pts ps : List (Pose2D ℝ)} {a b q : Pose2D ℝ} {s cap stepM : ℝ} {i k : ℕ}

theorem resample_eq (hc : 0 < cap) :
    resample pts stepM cap = (densify pts stepM).take
      (lowerBound (cumulativeArcLengths (densify pts stepM)) cap + 1) := by
  match pts with
  | []  => rfl
  | [a] => simp [resample, densify]
  | a :: b :: bs =>
    have hz : ¬(0.0 : ℝ) ≥ cap := by norm_num; exact hc
    have hfind : lowerBound (cumulativeArcLengths (densify (a :: b :: bs) stepM)) cap =
        (cumulativeArcLengthsFrom 0.0 a (densifyFrom stepM a (b :: bs))).findIdx (fun s => s ≥ cap) + 1 := by
      rw [lowerBound, densify, cumulativeArcLengths, List.findIdx_cons]
      simp [hz]
    rw [hfind, densify, resample, resampleFrom_eq _ rfl, Walk.out_extend _ rfl]
    rfl

def Pose2D.position (p : Pose2D ℝ) : ℂ :=
  ⟨p.x, p.y⟩

theorem hypot_eq (p q : Pose2D ℝ) :
    Libm.hypot (q.x - p.x) (q.y - p.y) = dist p.position q.position := by
  rw [dist_comm, Complex.dist_eq_re_im]
  rfl

theorem cumulativeArcLengthsFrom_cons (p : Pose2D ℝ) :
    cumulativeArcLengthsFrom s q (p :: ps) =
      (s + dist q.position p.position) ::
        cumulativeArcLengthsFrom (s + dist q.position p.position) p ps := by
  rw [cumulativeArcLengthsFrom, hypot_eq]

theorem cumulativeArcLengthsFrom_sorted :
    (s :: cumulativeArcLengthsFrom s q ps).Pairwise (· ≤ ·) := by
  rw [← List.isChain_iff_pairwise]
  induction ps generalizing s q with
  | nil => exact .singleton _
  | cons p ps ih =>
    rw [cumulativeArcLengthsFrom_cons]
    exact .cons_cons (le_add_of_nonneg_right dist_nonneg) ih

theorem cumulativeArcLengths_sorted (ps : List (Pose2D ℝ)) :
    (cumulativeArcLengths ps).Pairwise (· ≤ ·) := by
  cases ps with
  | nil => exact .nil
  | cons p ps => exact cumulativeArcLengthsFrom_sorted

-- The arc lengths grow by at most `stepM` for each point, with `e` to spare.
def Spaced (stepM e : ℝ) (q : Pose2D ℝ) (ps : List (Pose2D ℝ)) : Prop :=
  ∀ s i, i < ps.length → (cumulativeArcLengthsFrom s q ps).getD i 0 ≤ s + e + (i + 1) * stepM

theorem Spaced.cons {e d : ℝ} {p : Pose2D ℝ} (h : Spaced stepM e p ps) (he : 0 ≤ e)
    (hd : dist q.position p.position ≤ stepM + d) : Spaced stepM (e + d) q (p :: ps) := by
  intro s i hi
  rw [cumulativeArcLengthsFrom_cons]
  cases i with
  | zero =>
    simp only [List.getD_cons_zero, Nat.cast_zero]
    linarith
  | succ i =>
    have := h (s + dist q.position p.position) i (Nat.lt_of_succ_lt_succ hi)
    rw [List.getD_cons_succ]
    push_cast
    linarith

theorem Spaced.base {e d : ℝ} {p : Pose2D ℝ} (h : Spaced stepM e p ps)
    (hd : dist q.position p.position ≤ d) : Spaced stepM (e + d) q ps := by
  cases ps with
  | nil =>
    intro s i hi
    cases hi
  | cons r ps =>
    intro s i hi
    have ht := dist_triangle q.position p.position r.position
    have hs := h (s + dist q.position r.position - dist p.position r.position) i hi
    rw [cumulativeArcLengthsFrom_cons, sub_add_cancel] at hs
    rw [cumulativeArcLengthsFrom_cons]
    linarith

theorem position_samplePoint {n : ℕ} {dyaw : ℝ} :
    (samplePoint a b dyaw n k).position = a.position + (k / n : ℝ) * (b.position - a.position) := by
  apply Complex.ext <;> simp [samplePoint, Pose2D.position, mul_comm]

theorem position_samplePoint_zero {n : ℕ} {dyaw : ℝ} :
    (samplePoint a b dyaw n 0).position = a.position := by
  simp [position_samplePoint]

theorem position_samplePoint_self {n : ℕ} {dyaw : ℝ} (hn : n ≠ 0) :
    (samplePoint a b dyaw n n).position = b.position := by
  have : (n : ℝ) ≠ 0 := Nat.cast_ne_zero.mpr hn
  rw [position_samplePoint, div_self this]
  simp

theorem dist_samplePoint {n : ℕ} {dyaw : ℝ} :
    dist (samplePoint a b dyaw n k).position (samplePoint a b dyaw n (k + 1)).position =
      dist a.position b.position / n := by
  have he : (samplePoint a b dyaw n (k + 1)).position - (samplePoint a b dyaw n k).position =
      (1 / n : ℝ) * (b.position - a.position) := by
    rw [position_samplePoint, position_samplePoint]
    push_cast
    ring
  rw [dist_comm, dist_eq_norm, he, norm_mul, Complex.norm_real, Real.norm_eq_abs,
    abs_of_nonneg (by positivity), ← dist_eq_norm, dist_comm b.position]
  ring

theorem Spaced.segment {e d : ℝ} {n : ℕ} {dyaw : ℝ} (hn : n ≠ 0) (he : 0 ≤ e)
    (h : Spaced stepM e b ps) (hstep : dist a.position b.position / n ≤ stepM) (m j : ℕ)
    (hj : j + m = n) (hq : dist q.position (samplePoint a b dyaw n j).position ≤ d) :
    Spaced stepM (e + d) q ((List.range' (j + 1) m).map (samplePoint a b dyaw n) ++ ps) := by
  induction m generalizing q j d with
  | zero =>
    obtain rfl : j = n := hj
    rw [position_samplePoint_self hn] at hq
    exact h.base hq
  | succ m ih =>
    have htail := ih (q := samplePoint a b dyaw n (j + 1)) (j + 1) (by omega) (dist_self _).le
    rw [add_zero] at htail
    rw [List.range'_succ, List.map_cons, List.cons_append]
    refine htail.cons he ((dist_triangle _ (samplePoint a b dyaw n j).position _).trans ?_)
    rw [dist_samplePoint]
    linarith

-- The length of the segments that are left out.
noncomputable def skippedFrom (a : Pose2D ℝ) : List (Pose2D ℝ) → ℝ
  | []      => 0
  | b :: bs =>
    let seg := Libm.hypot (b.x - a.x) (b.y - a.y)
    (if seg ≤ 1e-9 then seg else 0) + skippedFrom b bs

noncomputable def skipped : List (Pose2D ℝ) → ℝ
  | []      => 0
  | a :: bs => skippedFrom a bs

theorem skippedFrom_nonneg (a : Pose2D ℝ) (bs : List (Pose2D ℝ)) : 0 ≤ skippedFrom a bs := by
  induction bs generalizing a with
  | nil => exact le_rfl
  | cons b bs ih =>
    rw [skippedFrom, hypot_eq]
    exact add_nonneg (by split_ifs <;> first | exact dist_nonneg | exact le_rfl) (ih b)

theorem step_le {seg : ℝ} (hs : 0 < stepM) (hseg : seg ≤ 1e6 * stepM) :
    (max 1 (Scalar.ceilToInt (stdMin (seg / stepM) 1.0e6))).toNat ≠ 0 ∧
    seg / ((max 1 (Scalar.ceilToInt (stdMin (seg / stepM) 1.0e6))).toNat : ℕ) ≤ stepM := by
  have hmin : stdMin (seg / stepM) 1.0e6 = seg / stepM := by
    rw [stdMin_real, ofScientific_real, min_eq_left]
    rw [div_le_iff₀ hs]
    norm_num at hseg ⊢
    exact hseg
  have hone : (1 : ℤ) ≤ max 1 (Scalar.ceilToInt (seg / stepM)) := le_max_left _ _
  have hceil : seg / stepM ≤ (max 1 (Scalar.ceilToInt (seg / stepM)) : ℤ) :=
    (Int.le_ceil _).trans (Int.cast_le.mpr (le_max_right _ _))
  rw [hmin]
  generalize max 1 (Scalar.ceilToInt (seg / stepM)) = n at hone hceil
  lift n to ℕ using by omega
  rw [Int.toNat_natCast]
  have hpos : (0 : ℝ) < n := by exact_mod_cast hone
  refine ⟨by omega, ?_⟩
  rw [div_le_iff₀ hs] at hceil
  rw [div_le_iff₀ hpos, mul_comm]
  exact_mod_cast hceil

theorem spaced_densifyFrom {d : ℝ} {bs : List (Pose2D ℝ)} (hs : 0 < stepM)
    (hseg : (a :: bs).IsChain fun p r => Libm.hypot (r.x - p.x) (r.y - p.y) ≤ 1e6 * stepM)
    (hq : dist q.position a.position ≤ d) :
    Spaced stepM (skippedFrom a bs + d) q (densifyFrom stepM a bs) := by
  induction bs generalizing a q d with
  | nil =>
    intro s i hi
    cases hi
  | cons b bs ih =>
    obtain ⟨hab, hseg⟩ := List.isChain_cons_cons.mp hseg
    rw [hypot_eq] at hab
    rw [densifyFrom, skippedFrom, hypot_eq]
    dsimp only
    split
    case isTrue h =>
      have := ih hseg ((dist_triangle q.position a.position b.position).trans
        (add_le_add hq le_rfl))
      convert this using 1
      ring
    case isFalse h =>
      obtain ⟨hn, hstep⟩ := step_le hs hab
      have hrest := ih hseg (dist_self b.position).le
      rw [add_zero] at hrest
      rw [zero_add]
      exact hrest.segment hn (skippedFrom_nonneg b bs) hstep _ 0 (Nat.zero_add _)
        (by rwa [position_samplePoint_zero])

theorem getD_densify_le (hs : 0 < stepM)
    (hseg : pts.IsChain fun p r => Libm.hypot (r.x - p.x) (r.y - p.y) ≤ 1e6 * stepM) {i : ℕ}
    (hi : i < (densify pts stepM).length) :
    (cumulativeArcLengths (densify pts stepM)).getD i 0 ≤ skipped pts + i * stepM := by
  match pts with
  | []  => simp [densify] at hi
  | [a] =>
    have : i = 0 := by simpa [densify] using hi
    norm_num [this, densify, cumulativeArcLengths, cumulativeArcLengthsFrom, skipped, skippedFrom]
  | a :: b :: bs =>
    have h := spaced_densifyFrom hs hseg (dist_self a.position).le
    rw [densify, cumulativeArcLengths]
    cases i with
    | zero =>
      norm_num
      exact skippedFrom_nonneg _ _
    | succ i =>
      have := h 0.0 i (Nat.lt_of_succ_lt_succ hi)
      rw [List.getD_cons_succ]
      push_cast
      refine this.trans (le_of_eq ?_)
      norm_num [skipped]

end

section

variable {s : List ℝ} {t cap : ℝ} {maxPoints : ℕ}

theorem lowerBound_take (h : t ≤ cap) : lowerBound (s.take (lowerBound s cap + 1)) t = lowerBound s t := by
  rw [lowerBound, List.findIdx_take, min_eq_right]
  · rfl
  · exact (lowerBound_mono h).trans (Nat.le_succ _)

theorem nearestIndex_take (h : t ≤ cap) (hl : lowerBound s cap < s.length) :
    nearestIndex (s.take (lowerBound s cap + 1)) t = nearestIndex s t := by
  have hle := lowerBound_mono (s := s) h
  have hlen : (s.take (lowerBound s cap + 1)).length = lowerBound s cap + 1 := by
    rw [List.length_take]
    omega
  have hget {i : ℕ} (hi : i ≤ lowerBound s t) :
      (s.take (lowerBound s cap + 1)).getD i 0 = s.getD i 0 := by
    simp [List.getD_eq_getElem?_getD, show i < lowerBound s cap + 1 by omega]
  rw [nearestIndex_eq, nearestIndex_eq, lowerBound_take h, hlen, hget le_rfl, hget (Nat.sub_le _ _)]
  rw [if_neg (by omega : ¬lowerBound s cap + 1 ≤ lowerBound s t), if_neg (by omega : ¬s.length ≤ _)]

theorem climb_congr {f g : ℕ → ℕ} {n : ℕ} (h : ∀ k < n, f k = g k) : climb f n = climb g n := by
  induction n with
  | zero => rfl
  | succ n ih =>
    rw [climb_succ, climb_succ, ih fun k hk => h k (Nat.lt_succ_of_lt hk), h n n.lt_succ_self]

theorem extent_eq (hs : s.Pairwise (· ≤ ·)) (hl : lowerBound s cap < s.length) :
    extent s cap = cap := by
  have := le_of_lowerBound_le hs (Nat.le_sub_one_of_lt hl) (by omega)
  rw [extent, min_eq_left]
  simpa [List.getLastD_eq_getLast?, List.getLast?_eq_getElem?] using this

theorem extent_take (hs : s.Pairwise (· ≤ ·)) (hl : lowerBound s cap < s.length) :
    extent (s.take (lowerBound s cap + 1)) cap = cap := by
  refine extent_eq (hs.sublist (List.take_sublist _ _)) ?_
  rw [lowerBound_take le_rfl, List.length_take]
  omega

theorem selectIndices_take (hs : s.Pairwise (· ≤ ·)) (hl : lowerBound s cap < s.length)
    (hc : 0 < cap) (hm : 2 ≤ maxPoints) (hp : maxPoints ≤ lowerBound s cap + 1) :
    selectIndices (s.take (lowerBound s cap + 1)) cap maxPoints = selectIndices s cap maxPoints := by
  have hlen : (s.take (lowerBound s cap + 1)).length = lowerBound s cap + 1 := by
    rw [List.length_take]
    omega
  have hw : wanted (s.take (lowerBound s cap + 1)) maxPoints = maxPoints := by
    rw [wanted, hlen, min_eq_left hp]
  have hw' : wanted s maxPoints = maxPoints := by
    rw [wanted, min_eq_left (by omega)]
  have he := extent_take hs hl
  have he' := extent_eq hs hl
  rw [selectIndices_eq (by omega) hm (by rwa [he]), selectIndices_eq (by omega) hm (by rwa [he']), hw,
    hw']
  refine climb_congr fun k hk => ?_
  rw [target, target, hw, hw', he, he']
  refine nearestIndex_take ?_ hl
  have hk : (k : ℝ) ≤ (maxPoints - 1 : ℕ) := by exact_mod_cast Nat.le_sub_one_of_lt hk
  have hpos : (0 : ℝ) < (maxPoints - 1 : ℕ) := by exact_mod_cast (by omega : 0 < maxPoints - 1)
  rw [div_le_iff₀ hpos]
  gcongr

theorem chooseIndices_take (hs : s.Pairwise (· ≤ ·)) (hl : lowerBound s kExtentCapM < s.length)
    (hp : kMaxPoints ≤ lowerBound s kExtentCapM + 1) :
    chooseIndices (s.take (lowerBound s kExtentCapM + 1)) = chooseIndices s := by
  have hc : (0 : ℝ) < kExtentCapM := by norm_num [kExtentCapM]
  have h0 : (0.0 : ℝ) = 0 := by norm_num
  have he := extent_take hs hl
  have he' := extent_eq hs hl
  rw [extent] at he he'
  have hnear : ∀ want ∈ kNearArcsM.filter fun want => (0 : ℝ) < want ∧ want < kExtentCapM,
      nearestIndex (s.take (lowerBound s kExtentCapM + 1)) want = nearestIndex s want := by
    intro want hw
    have hw := (List.mem_filter.mp hw).2
    simp only [decide_eq_true_eq] at hw
    exact nearestIndex_take hw.2.le hl
  simp only [chooseIndices, stdMin_real, h0, he, he', selectIndices_take hs hl hc (by decide) hp,
    List.map_congr_left hnear]

theorem chooseIndices_subset (s : List ℝ) :
    (chooseIndices s).Sublist (((if (selectIndices s kExtentCapM kMaxPoints).headD 0 ≠ 0 then
        (0 :: selectIndices s kExtentCapM kMaxPoints).take kMaxPoints
      else selectIndices s kExtentCapM kMaxPoints) ++
      (kNearArcsM.filter fun want => (0.0 : ℝ) < want ∧ want < stdMin kExtentCapM (s.getLastD 0.0)).map
        (nearestIndex s)).insertionSort (· ≤ ·)) :=
  (List.take_sublist _ _).trans (List.destutter_sublist _ _)

theorem chooseIndices_lt {i : ℕ} (hs : s.Pairwise (· ≤ ·)) (h₀ : s.head? = some 0)
    (hi : i ∈ chooseIndices s) : i < s.length := by
  have hne : s ≠ [] := by rintro rfl; simp at h₀
  have hsel : Selected s kExtentCapM kMaxPoints (selectIndices s kExtentCapM kMaxPoints) :=
    selectIndices_selected hs h₀ (by norm_num [kExtentCapM]) (by decide)
  have hmem := (chooseIndices_subset s).subset hi
  rw [(List.perm_insertionSort _ _).mem_iff, List.mem_append] at hmem
  obtain h | h := hmem
  · have hhead : (selectIndices s kExtentCapM kMaxPoints).headD 0 = 0 := by
      simp [List.headD_eq_head?_getD, hsel.first]
    rw [hhead, if_neg (by simp)] at h
    exact hsel.inRange i h
  · obtain ⟨want, -, rfl⟩ := List.mem_map.mp h
    exact nearestIndex_lt hne

end

section

variable {pts : List (Pose2D ℝ)}

-- The points that are handed on from a densified path.
noncomputable def picked (world : List (Pose2D ℝ)) : List (Pose2D ℝ) :=
  (chooseIndices (cumulativeArcLengths world)).filterMap (world[·]?)

theorem head_cumulativeArcLengths {world : List (Pose2D ℝ)} (h : world ≠ []) :
    (cumulativeArcLengths world).head? = some 0 := by
  cases world with
  | nil => exact absurd rfl h
  | cons p ps => norm_num [cumulativeArcLengths]

theorem resample_isPrefix {cap : ℝ} (hc : 0 < cap) (stepM : ℝ) :
    resample pts stepM cap <+: densify pts stepM :=
  resample_eq hc ▸ List.take_prefix _ _

theorem kMaxPoints_le (hseg : pts.IsChain fun p r =>
      Libm.hypot (r.x - p.x) (r.y - p.y) ≤ 1e6 * kResampleStepM) (hk : skipped pts ≤ 22)
    (hl : lowerBound (cumulativeArcLengths (densify pts kResampleStepM)) kExtentCapM <
      (cumulativeArcLengths (densify pts kResampleStepM)).length) :
    kMaxPoints ≤ lowerBound (cumulativeArcLengths (densify pts kResampleStepM)) kExtentCapM + 1 := by
  have hlo := le_of_lowerBound_le (cumulativeArcLengths_sorted _) le_rfl hl
  have hhi := getD_densify_le (by norm_num [kResampleStepM]) hseg
    (length_cumulativeArcLengths (densify pts kResampleStepM) ▸ hl)
  have h := hlo.trans hhi
  generalize lowerBound (cumulativeArcLengths (densify pts kResampleStepM)) kExtentCapM = n at h ⊢
  norm_num [kExtentCapM, kResampleStepM] at h
  have : (12 : ℝ) ≤ n := by linarith
  have : 12 ≤ n := by exact_mod_cast this
  rw [kMaxPoints]
  omega

-- The cap changes nothing that is handed on, unless the segments that are left out are long.
theorem cap_keeps_selection (pts : List (Pose2D ℝ))
    (hseg : pts.IsChain fun p r => Libm.hypot (r.x - p.x) (r.y - p.y) ≤ 1e6 * kResampleStepM)
    (hk : skipped pts ≤ 22) :
    resample pts kResampleStepM kExtentCapM <+: densify pts kResampleStepM ∧
    picked (resample pts kResampleStepM kExtentCapM) = picked (densify pts kResampleStepM) := by
  have hc : (0 : ℝ) < kExtentCapM := by norm_num [kExtentCapM]
  refine ⟨resample_isPrefix hc _, ?_⟩
  rw [resample_eq hc]
  generalize hw : densify pts kResampleStepM = world
  have hmax := kMaxPoints_le hseg hk
  rw [hw] at hmax
  have hs := cumulativeArcLengths_sorted world
  have hlen := length_cumulativeArcLengths world
  rcases lt_or_ge (lowerBound (cumulativeArcLengths world) kExtentCapM)
    (cumulativeArcLengths world).length with hl | hl
  case inr => rw [List.take_of_length_le (by omega)]
  case inl =>
    have hne : world ≠ [] := by rintro rfl; simp [cumulativeArcLengths] at hl
    have hchoose := chooseIndices_take hs hl (hmax hl)
    rw [picked, picked, cumulativeArcLengths_take, hchoose]
    refine List.filterMap_congr fun i hi => ?_
    rw [← hchoose] at hi
    have hi := chooseIndices_lt (hs.sublist (List.take_sublist _ _)) (by
      rw [List.head?_take, if_neg (Nat.succ_ne_zero _), head_cumulativeArcLengths hne]) hi
    rw [List.length_take] at hi
    rw [List.getElem?_take, if_pos (by omega)]

theorem cap_keeps_selection_straight :
    resample [⟨0, 0, 0⟩, ⟨30, 0, (0 : ℝ)⟩] kResampleStepM kExtentCapM <+:
      densify [⟨0, 0, 0⟩, ⟨30, 0, 0⟩] kResampleStepM ∧
    picked (resample [⟨0, 0, 0⟩, ⟨30, 0, 0⟩] kResampleStepM kExtentCapM) =
      picked (densify [⟨0, 0, 0⟩, ⟨30, 0, 0⟩] kResampleStepM) :=
  cap_keeps_selection [⟨0, 0, 0⟩, ⟨30, 0, 0⟩] (by norm_num [Libm.hypot, kResampleStepM])
    (by norm_num [skipped, skippedFrom, Libm.hypot])

end

section

-- A point on the axis.
def onAxis (x : ℝ) : Pose2D ℝ :=
  ⟨x, 0, 0⟩

-- `n` segments along the axis that are just short enough to be left out.
noncomputable def crawl : ℕ → ℝ → List (Pose2D ℝ) → List (Pose2D ℝ)
  | 0,     _, rest => rest
  | n + 1, x, rest => onAxis (x + 1e-9) :: crawl n (x + 1e-9) rest

variable {x y : ℝ} {n : ℕ} {rest : List (Pose2D ℝ)}

theorem hypot_onAxis (h : x ≤ y) :
    Libm.hypot ((onAxis y).x - (onAxis x).x) ((onAxis y).y - (onAxis x).y) = y - x := by
  simp [onAxis, Libm.hypot, Real.sqrt_sq (sub_nonneg.mpr h)]

theorem densifyFrom_crawl :
    densifyFrom kResampleStepM (onAxis x) (crawl n x rest) =
      densifyFrom kResampleStepM (onAxis (x + n * 1e-9)) rest := by
  induction n generalizing x with
  | zero => simp [crawl]
  | succ n ih =>
    have hle : x ≤ x + 1e-9 := by norm_num
    rw [crawl, densifyFrom, hypot_onAxis hle, if_pos (by rw [add_sub_cancel_left]), ih]
    push_cast
    ring_nf

theorem isChain_crawl {d : ℝ} (hd : 1e-9 ≤ d)
    (h : (onAxis (x + n * 1e-9) :: rest).IsChain fun p r => Libm.hypot (r.x - p.x) (r.y - p.y) ≤ d) :
    (onAxis x :: crawl n x rest).IsChain fun p r => Libm.hypot (r.x - p.x) (r.y - p.y) ≤ d := by
  induction n generalizing x with
  | zero => simpa [crawl] using h
  | succ n ih =>
    have hle : x ≤ x + 1e-9 := by norm_num
    refine .cons_cons ?_ (ih ?_)
    · rwa [hypot_onAxis hle, add_sub_cancel_left]
    · convert h using 3
      push_cast
      ring

theorem wrapAngle_zero : wrapAngle (0 : ℝ) = 0 := by
  simp only [wrapAngle, Libm.atan2, Libm.sin, Libm.cos, Real.sin_zero, Real.cos_zero]
  exact Complex.arg_one

theorem densifyFrom_onAxis (hlo : 1e-9 < y - x) (hhi : y - x ≤ 0.25) :
    densifyFrom kResampleStepM (onAxis x) (onAxis y :: rest) =
      onAxis y :: densifyFrom kResampleStepM (onAxis y) rest := by
  have hle : x ≤ y := by linarith [show (0 : ℝ) < 1e-9 by norm_num]
  have hn : max 1 (Scalar.ceilToInt (stdMin ((y - x) / kResampleStepM) 1.0e6)) = 1 := by
    rw [max_eq_left]
    refine Int.ceil_le.mpr ?_
    rw [stdMin_real]
    refine (min_le_left _ _).trans ?_
    norm_num [kResampleStepM] at hhi ⊢
    linarith
  have hpoint : samplePoint (onAxis x) (onAxis y) (wrapAngle ((onAxis y).yaw - (onAxis x).yaw)) 1 1 =
      onAxis y := by
    simp [samplePoint, onAxis, wrapAngle_zero]
  rw [densifyFrom, hypot_onAxis hle]
  dsimp only
  rw [if_neg (not_le.mpr hlo), hn]
  simp [hpoint]

theorem selectIndices_capped :
    selectIndices [0, 5, 11, (25 : ℝ)] kExtentCapM kMaxPoints = [0, 2, 3] := by
  have hf : ∀ k < 4, nearestIndex [0, 5, 11, (25 : ℝ)]
      (target [0, 5, 11, (25 : ℝ)] kExtentCapM kMaxPoints k) = [0, 2, 2, 3].getD k 0 := by
    have ht (k : ℕ) : target [0, 5, 11, (25 : ℝ)] kExtentCapM kMaxPoints k = 25 * k / 3 := by
      norm_num [target, extent, kExtentCapM, wanted, kMaxPoints]
    intro k hk
    rw [ht]
    interval_cases k <;> norm_num [nearestIndex_eq, lowerBound, List.findIdx_cons]
  rw [selectIndices_eq (by simp) (by decide) (by norm_num [extent, kExtentCapM])]
  exact (climb_congr hf).trans (by decide)

theorem selectIndices_uncapped :
    selectIndices [0, 5, 11, (25 : ℝ), 25.25] kExtentCapM kMaxPoints = [0, 1, 2, 3] := by
  have hf : ∀ k < 5, nearestIndex [0, 5, 11, (25 : ℝ), 25.25]
      (target [0, 5, 11, (25 : ℝ), 25.25] kExtentCapM kMaxPoints k) = [0, 1, 2, 3, 3].getD k 0 := by
    have ht (k : ℕ) : target [0, 5, 11, (25 : ℝ), 25.25] kExtentCapM kMaxPoints k = 25 * k / 4 := by
      norm_num [target, extent, kExtentCapM, wanted, kMaxPoints]
    intro k hk
    rw [ht]
    interval_cases k <;> norm_num [nearestIndex_eq, lowerBound, List.findIdx_cons]
  rw [selectIndices_eq (by simp) (by decide) (by norm_num [extent, kExtentCapM])]
  exact (climb_congr hf).trans (by decide)

theorem chooseIndices_of {s : List ℝ} {indices : List ℕ}
    (hi : selectIndices s kExtentCapM kMaxPoints = indices)
    (he : min kExtentCapM (s.getLastD 0) = 25)
    (hn : ∀ t ∈ [0.25, 0.5, 1, (2 : ℝ)], nearestIndex s t = 0) :
    chooseIndices s = ((((if indices.headD 0 ≠ 0 then (0 :: indices).take kMaxPoints else indices) ++
      [0, 0, 0, 0]).insertionSort (· ≤ ·)).destutter (· ≠ ·)).take kMaxPoints := by
  have h0 : (0.0 : ℝ) = 0 := by norm_num
  have hf : (kNearArcsM.filter fun want => (0 : ℝ) < want ∧ want < 25) = [0.25, 0.5, 1, 2] := by
    norm_num [kNearArcsM]
  simp only [chooseIndices, stdMin_real, h0, he, hi, hf, List.map_congr_left hn]
  rfl


section

local instance atLeastTwo_five : Nat.AtLeastTwo 5 := ⟨by decide⟩
local instance atLeastTwo_eleven : Nat.AtLeastTwo 11 := ⟨by decide⟩
local instance atLeastTwo_twentyFive : Nat.AtLeastTwo 25 := ⟨by decide⟩

-- A path along the axis, of which all but four segments are left out.
noncomputable def creeping (n₁ n₂ n₃ : ℕ) : List (Pose2D ℝ) :=
  onAxis 0 :: crawl n₁ 0 (onAxis 5 :: crawl n₂ 5 (onAxis 11 :: crawl n₃ 11 [onAxis 25, onAxis 25.25]))

end

section

variable {n₁ n₂ n₃ : ℕ} (h₁ : (n₁ * 1e-9 : ℝ) = 4.75) (h₂ : (n₂ * 1e-9 : ℝ) = 5.75)
  (h₃ : (n₃ * 1e-9 : ℝ) = 13.75)

include h₁ h₂ h₃

theorem isChain_creeping :
    (creeping n₁ n₂ n₃).IsChain fun p r => Libm.hypot (r.x - p.x) (r.y - p.y) ≤ 1e6 * kResampleStepM := by
  have hd : (1e-9 : ℝ) ≤ 1e6 * kResampleStepM := by norm_num [kResampleStepM]
  have hstep {x y : ℝ} (hle : x ≤ y) (h : y - x ≤ 1) :
      Libm.hypot ((onAxis y).x - (onAxis x).x) ((onAxis y).y - (onAxis x).y) ≤ 1e6 * kResampleStepM := by
    rw [hypot_onAxis hle]
    exact h.trans (by norm_num [kResampleStepM])
  refine isChain_crawl hd (.cons_cons ?_ (isChain_crawl hd (.cons_cons ?_
    (isChain_crawl hd (.cons_cons ?_ (.cons_cons ?_ (.singleton _)))))))
  · rw [h₁]
    exact hstep (by norm_num) (by norm_num)
  · rw [h₂]
    exact hstep (by norm_num) (by norm_num)
  · rw [h₃]
    exact hstep (by norm_num) (by norm_num)
  · exact hstep (by norm_num) (by norm_num)

theorem densify_creeping :
    densify (creeping n₁ n₂ n₃) kResampleStepM = [onAxis 0, onAxis 5, onAxis 11, onAxis 25, onAxis 25.25] := by
  have hcons (a : Pose2D ℝ) (bs : List (Pose2D ℝ)) :
      densify (a :: bs) kResampleStepM = a :: densifyFrom kResampleStepM a bs := by
    cases bs <;> rfl
  rw [creeping, hcons, densifyFrom_crawl, h₁, densifyFrom_onAxis (by norm_num) (by norm_num),
    densifyFrom_crawl, h₂, densifyFrom_onAxis (by norm_num) (by norm_num), densifyFrom_crawl, h₃,
    densifyFrom_onAxis (by norm_num) (by norm_num), densifyFrom_onAxis (by norm_num) (by norm_num)]
  rfl

end

theorem arcs_creeping : cumulativeArcLengths
    [onAxis 0, onAxis 5, onAxis 11, onAxis 25, onAxis 25.25] = [0, 5, 11, (25 : ℝ), 25.25] := by
  norm_num [cumulativeArcLengths, cumulativeArcLengthsFrom, onAxis, Libm.hypot]

theorem picked_creeping :
    picked [onAxis 0, onAxis 5, onAxis 11, onAxis 25, onAxis 25.25] =
      [onAxis 0, onAxis 5, onAxis 11, onAxis 25] := by
  have hn : ∀ t ∈ [0.25, 0.5, 1, (2 : ℝ)], nearestIndex [0, 5, 11, (25 : ℝ), 25.25] t = 0 := by
    norm_num [nearestIndex_eq, lowerBound, List.findIdx_cons]
  have hc : chooseIndices [0, 5, 11, (25 : ℝ), 25.25] = [0, 1, 2, 3] :=
    (chooseIndices_of selectIndices_uncapped (by norm_num [kExtentCapM]) hn).trans (by decide)
  rw [picked, arcs_creeping, hc]
  rfl

theorem picked_creeping_capped :
    picked [onAxis 0, onAxis 5, onAxis 11, onAxis 25] = [onAxis 0, onAxis 11, onAxis 25] := by
  have ha : cumulativeArcLengths [onAxis 0, onAxis 5, onAxis 11, onAxis 25] = [0, 5, 11, (25 : ℝ)] := by
    norm_num [cumulativeArcLengths, cumulativeArcLengthsFrom, onAxis, Libm.hypot]
  have hn : ∀ t ∈ [0.25, 0.5, 1, (2 : ℝ)], nearestIndex [0, 5, 11, (25 : ℝ)] t = 0 := by
    norm_num [nearestIndex_eq, lowerBound, List.findIdx_cons]
  have hc : chooseIndices [0, 5, 11, (25 : ℝ)] = [0, 2, 3] :=
    (chooseIndices_of selectIndices_capped (by norm_num [kExtentCapM]) hn).trans (by decide)
  rw [picked, ha, hc]
  rfl

theorem resample_creeping {n₁ n₂ n₃ : ℕ} (h₁ : (n₁ * 1e-9 : ℝ) = 4.75)
    (h₂ : (n₂ * 1e-9 : ℝ) = 5.75) (h₃ : (n₃ * 1e-9 : ℝ) = 13.75) :
    resample (creeping n₁ n₂ n₃) kResampleStepM kExtentCapM =
      [onAxis 0, onAxis 5, onAxis 11, onAxis 25] := by
  have hl : lowerBound [0, 5, 11, (25 : ℝ), 25.25] kExtentCapM = 3 := by
    norm_num [lowerBound, List.findIdx_cons, kExtentCapM]
  rw [resample_eq (by norm_num [kExtentCapM]), densify_creeping h₁ h₂ h₃, arcs_creeping, hl]
  rfl

-- With billions of segments that are left out, the points that are handed on differ.
theorem cap_changes_selection :
    (creeping 4750000000 5750000000 13750000000).IsChain
      (fun p r => Libm.hypot (r.x - p.x) (r.y - p.y) ≤ 1e6 * kResampleStepM) ∧
    picked (resample (creeping 4750000000 5750000000 13750000000) kResampleStepM kExtentCapM) ≠
      picked (densify (creeping 4750000000 5750000000 13750000000) kResampleStepM) := by
  have h₁ : ((4750000000 : ℕ) * 1e-9 : ℝ) = 4.75 := by norm_num
  have h₂ : ((5750000000 : ℕ) * 1e-9 : ℝ) = 5.75 := by norm_num
  have h₃ : ((13750000000 : ℕ) * 1e-9 : ℝ) = 13.75 := by norm_num
  refine ⟨isChain_creeping h₁ h₂ h₃, ?_⟩
  rw [resample_creeping h₁ h₂ h₃, densify_creeping h₁ h₂ h₃, picked_creeping, picked_creeping_capped]
  exact fun h => absurd (congrArg List.length h) (by decide)

end

end SafetyIsland.VpReference
